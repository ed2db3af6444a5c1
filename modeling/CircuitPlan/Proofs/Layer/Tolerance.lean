import Mathlib.Data.List.Chain
import CircuitPlan.Proofs.Layer.Widths
import CircuitPlan.Proofs.Single

namespace CircuitPlan.Widths

section Open

variable {fanIns : List Nat} {fanIn : Nat}

theorem openWidths_isChain (absorbs : Nat → Nat → Bool) (last : Option Nat) (fanIns : List Nat) :
    (last.toList ++ openWidths absorbs last fanIns).IsChain
      fun wider narrower => absorbs wider narrower = false := by
  induction fanIns generalizing last with
  | nil => cases last <;> simp [openWidths]
  | cons first rest ih =>
      cases last with
      | none => exact ih (some first)
      | some width =>
          rw [openWidths]
          split
          · exact ih (some width)
          · rename_i refused
            exact .cons_cons (eq_false_of_ne_true refused) (ih (some first))

/-- The narrowest of some widths that is large enough for a fan-in also absorbed it. -/
structure Takes (absorbs : Nat → Nat → Bool) (widths : List Nat) (fanIn width : Nat) : Prop where
  isWidth : width ∈ widths
  fits : fanIn ≤ width
  absorbed : fanIn = width ∨ absorbs width fanIn = true
  least : ∀ other ∈ widths, fanIn ≤ other → width ≤ other

section Takes

variable {absorbs : Nat → Nat → Bool} {widths : List Nat} {fanIn width wider : Nat}

theorem Takes.self (isWidth : fanIn ∈ widths) : Takes absorbs widths fanIn fanIn :=
  ⟨isWidth, Nat.le_refl _, .inl rfl, fun _ _ enough => enough⟩

theorem Takes.head (less : fanIn < width) (absorbed : absorbs width fanIn = true)
    (narrow : ∀ other ∈ widths, other < fanIn) : Takes absorbs (width :: widths) fanIn width := by
  refine ⟨List.mem_cons_self, Nat.le_of_lt less, .inr absorbed, fun other isOther enough => ?_⟩
  rcases List.mem_cons.mp isOther with rfl | later
  · exact Nat.le_refl _
  · exact absurd enough (Nat.not_le_of_lt (narrow other later))

theorem Takes.cons (takes : Takes absorbs widths fanIn width)
    (below : ∀ other ∈ widths, other < wider) : Takes absorbs (wider :: widths) fanIn width := by
  refine ⟨List.mem_cons_of_mem _ takes.isWidth, takes.fits, takes.absorbed, ?_⟩
  intro other isOther enough
  rcases List.mem_cons.mp isOther with rfl | later
  · exact Nat.le_of_lt (below width takes.isWidth)
  · exact takes.least other later enough

end Takes

theorem openWidths_takes (absorbs : Nat → Nat → Bool) (last : Option Nat)
    (descending : (last.toList ++ fanIns).Pairwise (· > ·)) (member : fanIn ∈ fanIns) :
    ∃ width, Takes absorbs (last.toList ++ openWidths absorbs last fanIns) fanIn width := by
  induction fanIns generalizing last with
  | nil => cases member
  | cons first rest ih =>
      cases last with
      | none =>
          rcases List.mem_cons.mp member with rfl | later
          · exact ⟨fanIn, .self List.mem_cons_self⟩
          · exact ih (some first) descending later
      | some width =>
          obtain ⟨wider, descendingRest⟩ := List.pairwise_cons.mp descending
          have opened (last : Option Nat) := openWidths_sublist absorbs last rest
          rw [openWidths]
          split
          case isTrue absorbed =>
            rcases List.mem_cons.mp member with rfl | later
            · have smaller := (List.pairwise_cons.mp descendingRest).1
              exact ⟨width, .head (wider fanIn List.mem_cons_self) absorbed fun other isOpen =>
                smaller other ((opened _).subset isOpen)⟩
            · have descendingLater := descending.sublist
                ((List.sublist_cons_self first rest).cons_cons width)
              exact ih (some width) descendingLater later
          case isFalse =>
            rcases List.mem_cons.mp member with rfl | later
            · exact ⟨fanIn, .self (List.mem_cons_of_mem _ List.mem_cons_self)⟩
            · obtain ⟨taken, takes⟩ := ih (some first) descendingRest later
              exact ⟨taken, takes.cons fun other isOpen =>
                wider other (((opened _).cons_cons first).subset isOpen)⟩

theorem uncapped_isChain (absorbs : Nat → Nat → Bool) (fanIns : List Nat) :
    (uncapped absorbs fanIns).IsChain fun narrower wider => absorbs wider narrower = false :=
  List.isChain_reverse.mpr (openWidths_isChain absorbs none _)

theorem uncapped_takes (absorbs : Nat → Nat → Bool) (member : fanIn ∈ fanIns) :
    ∃ width, Takes absorbs (uncapped absorbs fanIns) fanIn width := by
  have descending : (Ascending.ofList fanIns).reverse.Pairwise (· > ·) :=
    List.pairwise_reverse.mpr (Ascending.ofList_ascending fanIns)
  have present := List.mem_reverse.mpr (Ascending.mem_ofList.mpr member)
  obtain ⟨width, takes⟩ := openWidths_takes absorbs none descending present
  refine ⟨width, List.mem_reverse.mpr takes.isWidth, takes.fits, takes.absorbed, ?_⟩
  exact fun other isOther => takes.least other (List.mem_reverse.mp isOther)

theorem uncapped_congr (absorbs : Nat → Nat → Bool) {others : List Nat}
    (same : ∀ fanIn, fanIn ∈ others ↔ fanIn ∈ fanIns) :
    uncapped absorbs others = uncapped absorbs fanIns := by
  have sets : Ascending.ofList others = Ascending.ofList fanIns := by
    apply Ascending.ofList_eq (Ascending.ofList_ascending fanIns)
    exact fun fanIn => (same fanIn).trans Ascending.mem_ofList.symm
  rw [uncapped, uncapped, sets]

theorem uncapped_eq_singleton_iff (absorbs : Nat → Nat → Bool) {largest : Nat}
    (found : fanIns.max? = some largest) : uncapped absorbs fanIns = [largest] ↔
      ∀ fanIn ∈ fanIns, fanIn = largest ∨ absorbs largest fanIn = true := by
  constructor
  · intro single fanIn member
    obtain ⟨width, takes⟩ := uncapped_takes absorbs member
    rw [single] at takes
    obtain rfl := List.mem_singleton.mp takes.isWidth
    exact takes.absorbed
  · intro takes
    have serves := uncapped_serves absorbs fanIns
    have chain := uncapped_isChain absorbs fanIns
    have last := serves.getLast?_eq.trans found
    obtain ⟨smaller, split⟩ := List.getLast?_eq_some_iff.mp last
    rw [split] at serves chain ⊢
    cases smaller using List.reverseRecOn with
    | nil => rfl
    | append_singleton rest near =>
        have isNear : near ∈ rest ++ [near] := List.mem_append_right rest List.mem_cons_self
        have less : near < largest :=
          (List.pairwise_append.mp serves.ascending).2.2 near isNear largest List.mem_cons_self
        have refused : absorbs largest near = false :=
          (List.isChain_append.mp chain).2.2 near (by simp) largest (by simp)
        have accepted := (takes near (serves.of_mem near (List.mem_append_left _ isNear))).resolve_left
          (Nat.ne_of_lt less)
        rw [refused] at accepted
        cases accepted

end Open

structure Tolerated (fanIns : List Nat) (tolerance : Float32) (widths : List Nat) : Prop where
  ascending : widths.Pairwise (· < ·)
  of_mem : ∀ width ∈ widths, width ∈ fanIns
  largest : widths.getLast? = fanIns.max?
  of_same : ∀ others : List Nat, (∀ fanIn, fanIn ∈ others ↔ fanIn ∈ fanIns) →
    choose others tolerance none = .ok widths
  placed : ∀ fanIn ∈ fanIns, ∃ index, ∃ inside : index < widths.length,
    place widths fanIn = .ok index ∧ fanIn ≤ widths[index] ∧
      (fanIn = widths[index] ∨
        nearestFloat (widths[index] - fanIn) < tolerance * nearestFloat widths[index])
  apart : widths.IsChain fun narrower wider =>
    ¬ nearestFloat (wider - narrower) < tolerance * nearestFloat wider
  unpadded : (tolerance == 0) = true → (∀ fanIn ∈ fanIns, fanIn ∈ widths) ∧
    ∀ fanIn ∈ fanIns, ∃ index, place widths fanIn = .ok index ∧ widths[index]? = some fanIn

theorem absorbs_iff {tolerance : Float32} {width fanIn : Nat} :
    absorbs tolerance width fanIn = true ↔
      nearestFloat (width - fanIn) < tolerance * nearestFloat width :=
  decide_eq_true_iff

theorem uncapped_place (absorbs : Nat → Nat → Bool) {fanIns : List Nat} {fanIn : Nat}
    (member : fanIn ∈ fanIns) :
    ∃ index, ∃ inside : index < (uncapped absorbs fanIns).length,
      place (uncapped absorbs fanIns) fanIn = .ok index ∧
      fanIn ≤ (uncapped absorbs fanIns)[index] ∧
      (fanIn = (uncapped absorbs fanIns)[index] ∨
        absorbs (uncapped absorbs fanIns)[index] fanIn = true) := by
  have serves := uncapped_serves absorbs fanIns
  obtain ⟨width, takes⟩ := uncapped_takes absorbs member
  obtain ⟨index, inside, rfl⟩ := List.getElem_of_mem takes.isWidth
  have placed := (place_eq_ok serves.ascending).mpr ⟨inside, takes.fits, takes.least⟩
  exact ⟨index, inside, placed, takes.fits, takes.absorbed⟩

theorem choose_tolerated (fanIns : List Nat) (tolerance : Float32) :
    ∃ widths, choose fanIns tolerance none = .ok widths ∧ Tolerated fanIns tolerance widths := by
  let widths := uncapped (absorbs tolerance) fanIns
  have serves : Serves fanIns widths := uncapped_serves (absorbs tolerance) fanIns
  have placed : ∀ fanIn ∈ fanIns, ∃ index, ∃ inside : index < widths.length,
      place widths fanIn = .ok index ∧ fanIn ≤ widths[index] ∧
        (fanIn = widths[index] ∨
          nearestFloat (widths[index] - fanIn) < tolerance * nearestFloat widths[index]) := by
    intro fanIn member
    obtain ⟨index, inside, found, enough, takes⟩ := uncapped_place (absorbs tolerance) member
    exact ⟨index, inside, found, enough, takes.imp_right absorbs_iff.mp⟩
  have exact (zero : (tolerance == 0) = true) : ∀ fanIn ∈ fanIns, ∃ index,
      place widths fanIn = .ok index ∧ widths[index]? = some fanIn := by
    intro fanIn member
    obtain ⟨index, inside, found, -, takes⟩ := placed fanIn member
    have same := takes.resolve_right (not_lt_zero_mul zero _ _)
    exact ⟨index, found, List.getElem?_eq_some_iff.mpr ⟨inside, same.symm⟩⟩
  refine ⟨widths, rfl, ⟨serves.ascending, serves.of_mem, serves.getLast?_eq, ?_, placed, ?_, ?_⟩⟩
  · exact fun others same => congrArg Except.ok (uncapped_congr (absorbs tolerance) same)
  · have chain := uncapped_isChain (absorbs tolerance) fanIns
    apply chain.imp
    intro narrower wider refused accepted
    rw [absorbs_iff.mpr accepted] at refused
    cases refused
  · intro zero
    refine ⟨?_, exact zero⟩
    intro fanIn member
    obtain ⟨index, -, found⟩ := exact zero fanIn member
    exact List.mem_of_getElem? found

open Rounding

/-- A width absorbs all fan-ins but those that get lost when the gap to them is rounded. -/
theorem absorbs_one_iff {width fanIn : Nat} (small : width < 2 ^ 64) :
    absorbs 1 width fanIn = true ↔ rounded (width - fanIn) < rounded width := by
  rw [absorbs_iff, one_mul_nearestFloat small]
  exact nearestFloat_lt_iff (by omega) small

theorem rounded_gap_lt {width fanIn : Nat} (positive : 0 < fanIn) (fits : fanIn ≤ width)
    (near : width ≤ 2 ^ 24 ∨ width < 2 ^ 23 * fanIn) : rounded (width - fanIn) < rounded width := by
  by_cases exact : width ≤ 2 ^ 24
  · rw [rounded_of_le exact, rounded_of_le (by omega)]
    omega
  · have close := near.resolve_left exact
    have digits : unit width * 2 ^ 23 ≤ width := unit_mul_le (by omega)
    apply rounded_lt
    omega

theorem choose_one {fanIns : List Nat} {largest : Nat} (found : fanIns.max? = some largest)
    (positive : ∀ fanIn ∈ fanIns, 0 < fanIn) (small : largest < 2 ^ 64) :
    (choose fanIns 1 none = .ok [largest] ↔
      ∀ fanIn ∈ fanIns, fanIn = largest ∨ rounded (largest - fanIn) < rounded largest) ∧
    (largest ≤ 2 ^ 24 → choose fanIns 1 none = .ok [largest]) ∧
    ((∀ fanIn ∈ fanIns, largest < 2 ^ 23 * fanIn) → choose fanIns 1 none = .ok [largest]) := by
  have single : choose fanIns 1 none = .ok [largest] ↔
      ∀ fanIn ∈ fanIns, fanIn = largest ∨ rounded (largest - fanIn) < rounded largest := by
    have merged := uncapped_eq_singleton_iff (absorbs 1) found
    simp only [absorbs_one_iff small] at merged
    rw [← merged]
    exact ⟨Except.ok.inj, congrArg Except.ok⟩
  have most := (List.max?_eq_some_iff.mp found).2
  refine ⟨single, fun exact => single.mpr ?_, fun near => single.mpr ?_⟩
  · exact fun fanIn member =>
      .inr (rounded_gap_lt (positive fanIn member) (most fanIn member) (.inl exact))
  · exact fun fanIn member =>
      .inr (rounded_gap_lt (positive fanIn member) (most fanIn member) (.inr (near fanIn member)))

theorem choose_one_near : [16777216, 33554433].max? = some 33554433 ∧
    choose [16777216, 33554433] 1 none = .ok [33554433] := by
  have found : [16777216, 33554433].max? = some 33554433 := by decide
  exact ⟨found, (choose_one found (by decide) (by decide)).2.2 (by decide)⟩

theorem choose_one_far :
    [1, 16777217].max? = some 16777217 ∧ choose [1, 16777217] 1 none = .ok [1, 16777217] := by
  decide +kernel

end CircuitPlan.Widths
