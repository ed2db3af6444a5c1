import CircuitPlan.Proofs.Reduction.Completion

namespace CircuitPlan

namespace TieGroup

section Passes

variable {width step start : Nat} {cut : List (Nat × Nat)}

def advance (width step start : Nat) : Nat := start + min step (width - start)

/-- The tiles that the loop takes from `start` on. -/
inductive Tiling (width step : Nat) : Nat → List (Nat × Nat) → Prop
  | done {start : Nat} (covered : width ≤ start) : Tiling width step start []
  | pass {start : Nat} {rest : List (Nat × Nat)} (left : start < width)
      (later : Tiling width step (advance width step start) rest) :
      Tiling width step start ((start, min step (width - start)) :: rest)

theorem lt_advance (positive : 0 < step) (left : start < width) :
    start < advance width step start := by
  unfold advance
  omega

theorem iterate_advance_zero (width passes start : Nat) :
    (advance width 0)^[passes] start = start := by
  apply Function.iterate_fixed
  rw [advance, Nat.zero_min, Nat.add_zero]

theorem exists_tiling (positive : 0 < step) (start : Nat) : ∃ cut, Tiling width step start cut := by
  -- What is left of the range gets smaller with every pass.
  induction left : width - start using Nat.strongRecOn generalizing start with
  | _ measure ih =>
      by_cases inside : start < width
      · have further := lt_advance positive inside
        obtain ⟨rest, later⟩ := ih _ (by omega) (advance width step start) rfl
        exact ⟨_, .pass inside later⟩
      · exact ⟨[], .done (Nat.le_of_not_lt inside)⟩

namespace Tiling

theorem unique {other : List (Nat × Nat)} (tiling : Tiling width step start cut)
    (again : Tiling width step start other) : cut = other := by
  induction tiling generalizing other with
  | done covered =>
      cases again with
      | done => rfl
      | pass left => exact absurd left (Nat.not_lt_of_le covered)
  | pass left _ ih =>
      cases again with
      | done covered => exact absurd left (Nat.not_lt_of_le covered)
      | pass _ later => rw [ih later]

theorem exists_passes (tiling : Tiling width step start cut) :
    width ≤ (advance width step)^[cut.length] start := by
  induction tiling with
  | done covered => exact covered
  | pass _ _ ih => exact ih

theorem of_passes {passes : Nat} (ends : width ≤ (advance width step)^[passes] start) :
    ∃ cut, Tiling width step start cut := by
  induction passes generalizing start with
  | zero => exact ⟨[], .done ends⟩
  | succ passes ih =>
      by_cases left : start < width
      · obtain ⟨rest, later⟩ := ih ends
        exact ⟨_, .pass left later⟩
      · exact ⟨[], .done (Nat.le_of_not_lt left)⟩

theorem of_range (positive : 0 < step) {count index : Nat}
    (last : index + count = (width + step - 1) / step) (here : start = min width (index * step)) :
    Tiling width step start ((List.range' index count).map fun index =>
      (index * step, min step (width - index * step))) := by
  induction count generalizing index start with
  | zero =>
      have covered : ¬ index * step < width := mt (lt_tileCount positive index).mpr (by omega)
      exact .done (by omega)
  | succ count ih =>
      have left : index * step < width := (lt_tileCount positive index).mp (by omega)
      obtain rfl : start = index * step := by omega
      refine .pass left (ih (by omega) ?_)
      rw [advance, Nat.add_one_mul]
      omega

theorem of_tiles (made : tiles width step = some cut) : Tiling width step 0 cut := by
  unfold tiles at made
  split at made
  case isTrue empty =>
    cases made
    exact .done (Nat.le_of_eq empty)
  case isFalse nonempty =>
    split at made
    case isTrue => cases made
    case isFalse moving =>
      obtain rfl := Option.some.inj made
      rw [List.range_eq_range']
      exact of_range (Nat.pos_of_ne_zero moving) (Nat.zero_add _) (by simp)

end Tiling

theorem tiles_eq_some : tiles width step = some cut ↔ Tiling width step 0 cut := by
  constructor
  · exact Tiling.of_tiles
  · intro tiling
    cases made : tiles width step with
    | some other => rw [(Tiling.of_tiles made).unique tiling]
    | none =>
        by_cases still : step = 0
        · subst still
          have covered := tiling.exists_passes
          rw [iterate_advance_zero, Nat.le_zero] at covered
          simp [tiles, covered] at made
        · rw [tiles_of_pos width (Nat.pos_of_ne_zero still)] at made
          cases made

theorem tiles_eq_none : tiles width step = none ↔
    ∀ passes, (advance width step)^[passes] 0 < width := by
  constructor
  · intro endless passes
    by_contra ends
    obtain ⟨cut, tiling⟩ := Tiling.of_passes (Nat.le_of_not_lt ends)
    rw [tiles_eq_some.mpr tiling] at endless
    cases endless
  · intro endless
    cases made : tiles width step with
    | none => rfl
    | some cut => exact absurd (endless _) (Nat.not_lt_of_le (Tiling.of_tiles made).exists_passes)

end Passes

variable {options : ReductionOptions} {set : TieGroup}

def step (options : ReductionOptions) (set : TieGroup) : Nat :=
  options.tileWidth set.cardinality % UInt32.size

def Ends (options : ReductionOptions) (set : TieGroup) : Prop :=
  ∃ passes, set.width ≤ (advance set.width (set.step options))^[passes] 0

theorem tiles_eq_none_iff : tiles set.width (set.step options) = none ↔ ¬ set.Ends options := by
  simp only [tiles_eq_none, Ends, not_exists, Nat.not_le]

theorem advance_iff {start : Nat} (left : start < set.width) :
    start < advance set.width (set.step options) start ↔
      ¬ UInt32.size ∣ options.tileWidth set.cardinality := by
  rw [Nat.dvd_iff_mod_eq_zero, ← ne_eq, ← Nat.pos_iff_ne_zero]
  constructor
  · intro further
    unfold advance step at further
    omega
  · exact fun positive => lt_advance positive left

theorem ends_iff : set.Ends options ↔
    set.width = 0 ∨ ¬ UInt32.size ∣ options.tileWidth set.cardinality := by
  rw [Nat.dvd_iff_mod_eq_zero]
  constructor
  · rintro ⟨passes, ends⟩
    by_contra! still
    rw [step, still.2, iterate_advance_zero, Nat.le_zero] at ends
    exact still.1 ends
  · rintro (empty | moving)
    · exact ⟨0, Nat.le_of_eq empty⟩
    · obtain ⟨cut, tiling⟩ := exists_tiling (Nat.pos_of_ne_zero moving) 0
      exact ⟨_, tiling.exists_passes⟩

theorem tileWidth_not_dvd (small : options.blockSize < 2 * UInt32.size)
    (several : 2 ≤ set.numReplicas) : ¬ UInt32.size ∣ options.tileWidth set.cardinality := by
  have shared : options.blockSize / set.cardinality ≤ options.blockSize / 2 :=
    Nat.div_le_div_left (Nat.le_trans several (numReplicas_le several)) Nat.two_pos
  apply Nat.not_dvd_of_pos_of_lt
  · exact Nat.lt_of_lt_of_le Nat.one_pos (Nat.le_max_left _ _)
  · rw [ReductionOptions.tileWidth]
    simp only [UInt32.size] at small ⊢
    omega

theorem jobs_endless_iff : set.jobs options = .error (.fault .endlessTiling) ↔
    set.cardinality ≤ options.maxTied ∧ ¬ set.Ends options := by
  rw [jobs, ← tiles_eq_none_iff, step]
  by_cases few : set.cardinality ≤ options.maxTied
  · rw [require_pos few, ok_bind]
    cases tiles set.width (options.tileWidth set.cardinality % UInt32.size) <;>
      simp [few, pure, Except.pure]
  · rw [require_neg few, error_bind]
    simp [few]

theorem exists_jobs_iff : (∃ cut, set.jobs options = .ok cut) ↔
    set.cardinality ≤ options.maxTied ∧ set.Ends options := by
  rw [← not_not (a := set.Ends options), ← tiles_eq_none_iff, step]
  simp only [jobs_eq_ok, exists_and_left]
  apply and_congr_right'
  cases tiles set.width (options.tileWidth set.cardinality % UInt32.size) <;> simp

end TieGroup

namespace Reduction

variable {options : ReductionOptions} {sets : List TieGroup}

theorem bucketOf_failsOnly (group : Nat × List (List Job)) :
    FailsOnly (· ≠ Fault.endlessTiling) (bucketOf options group) := by
  apply FailsOnly.bind
  · apply FailsOnly.bind
    · apply FailsOnly.forM
      intro row _
      exact (FailsOnly.require fun _ => nofun).bind fun _ _ => FailsOnly.require fun _ => nofun
    · exact fun _ _ => .ok _ _
  · exact fun _ _ => .ok _ _

theorem ofTies_endless_iff : ofTies options sets = .error (.fault .endlessTiling) ↔
    (shared sets).mapM (TieGroup.jobs options) = .error (.fault .endlessTiling) := by
  rw [ofTies]
  constructor
  · intro endless
    rcases bind_eq_error.mp endless with tiling | ⟨cut, -, later⟩
    · exact tiling
    rcases bind_eq_error.mp later with bucketing | ⟨buckets, bucketsOk, comparing⟩
    · obtain ⟨fault, failed, same⟩ := mapError_eq_error.mp bucketing
      cases same
      exact absurd rfl (FailsOnly.mapM (fun group _ => bucketOf_failsOnly group) _ failed)
    · have readable := readable_of_buckets (mapError_eq_ok.mp bucketsOk)
      dsimp only at comparing
      rw [writesApart_eq_ok.mpr ⟨readable, rfl⟩, Except.mapError, ok_bind] at comparing
      rcases bind_eq_error.mp comparing with overlapping | ⟨_, -, finished⟩
      · unfold require at overlapping
        split at overlapping <;> cases overlapping
      · cases finished
  · intro endless
    exact bind_eq_error.mpr (.inl endless)

/-- How far the tiling loop gets under some options. -/
structure LoopEnds (options : ReductionOptions) (sets : List TieGroup) : Prop where
  advances : ∀ set : TieGroup, ∀ start < set.width,
    start < TieGroup.advance set.width (set.step options) start ↔
      ¬ UInt32.size ∣ options.tileWidth set.cardinality
  ends : ∀ set : TieGroup, set.Ends options ↔
    set.width = 0 ∨ ¬ UInt32.size ∣ options.tileWidth set.cardinality
  small : options.blockSize < 2 * UInt32.size → ∀ set ∈ shared sets, set.Ends options
  endless : ofTies options sets = .error (.fault .endlessTiling) ↔
    ∃ before set after, shared sets = before ++ set :: after ∧
      (∀ earlier ∈ before, earlier.cardinality ≤ options.maxTied ∧ earlier.Ends options) ∧
      set.cardinality ≤ options.maxTied ∧ ¬ set.Ends options

theorem loopEnds (options : ReductionOptions) (sets : List TieGroup) : LoopEnds options sets where
  advances _ _ left := TieGroup.advance_iff left
  ends _ := TieGroup.ends_iff
  small bound set isShared := by
    have several := (mem_shared.mp isShared).2
    exact TieGroup.ends_iff.mpr (.inr (TieGroup.tileWidth_not_dvd bound several))
  endless := by
    rw [ofTies_endless_iff, mapM_eq_error_iff]
    simp only [TieGroup.exists_jobs_iff, TieGroup.jobs_endless_iff]

end Reduction

def Options.wideBlock : Options := { reduction := { blockSize := 2 * UInt32.size } }

def TieGroup.single : TieGroup where
  source := 0
  params := ⟨0, 1⟩
  target := ⟨0, 1⟩
  members := [1, 2]
  flowStarts := [1, 2]

theorem Reduction.wideBlock_endless : Options.wideBlock.validate = .ok () ∧
    ¬ TieGroup.single.Ends Options.wideBlock.reduction ∧
      Reduction.ofTies Options.wideBlock.reduction [TieGroup.single] =
        .error (.fault .endlessTiling) := by
  refine ⟨by decide +kernel, ?_, by decide +kernel⟩
  have still : TieGroup.single.step Options.wideBlock.reduction = 0 := by decide +kernel
  rintro ⟨passes, ends⟩
  rw [still, TieGroup.iterate_advance_zero] at ends
  exact absurd ends (by decide)

end CircuitPlan
