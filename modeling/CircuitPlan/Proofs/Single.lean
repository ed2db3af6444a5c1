import Mathlib
import CircuitPlan.Single

/-!
# Counts in single precision

A count is rounded to 24 binary digits: to the nearest multiple of a unit, and to the even one
when two are equally near. Up to `2 ^ 24` nothing is lost, and counts are compared by what they
are rounded to.
-/

namespace CircuitPlan

/-! ## Rounding -/

namespace Rounding

/-- The place value of the last digit that is kept. -/
def unit (count : Nat) : Nat := 2 ^ (count.log2 - 23)

/-- The number of units that comes nearest to a count. -/
def units (unit count : Nat) : Nat :=
  if 2 * (count % unit) < unit ∨ 2 * (count % unit) = unit ∧ count / unit % 2 = 0 then count / unit
  else count / unit + 1

def rounded (count : Nat) : Nat := units (unit count) count * unit count

variable {unit count other : Nat}

theorem units_mul (positive : 0 < unit) (count : Nat) : units unit (unit * count) = count := by
  rw [units, Nat.mul_mod_right, Nat.mul_div_cancel_left _ positive, if_pos (.inl positive)]

theorem units_one (count : Nat) : units 1 count = count := by
  simpa only [Nat.one_mul] using units_mul Nat.one_pos count

theorem units_bounds (lower : 2 ^ 23 * unit ≤ count) (upper : count < 2 ^ 24 * unit) :
    2 ^ 23 ≤ units unit count ∧ units unit count ≤ 2 ^ 24 := by
  have positive : 0 < unit := by omega
  have atLeast := (Nat.le_div_iff_mul_le positive).mpr lower
  have below := (Nat.div_lt_iff_lt_mul positive).mpr upper
  unfold units
  split <;> omega

theorem units_error (positive : 0 < unit) (count : Nat) :
    2 * count ≤ 2 * (units unit count * unit) + unit ∧
      2 * (units unit count * unit) ≤ 2 * count + unit := by
  have whole := Nat.div_add_mod' count unit
  have rest := Nat.mod_lt count positive
  have next := Nat.add_one_mul (count / unit) unit
  unfold units
  split <;> omega

theorem unit_of_le (small : count < 2 ^ 24) : Rounding.unit count = 1 := by
  by_cases zero : count = 0
  · rw [zero]
    rfl
  · have digits := (Nat.log2_lt zero).mpr small
    rw [Rounding.unit, Nat.sub_eq_zero_of_le (by omega), Nat.pow_zero]

theorem rounded_of_le (small : count ≤ 2 ^ 24) : rounded count = count := by
  rcases Nat.lt_or_eq_of_le small with less | rfl
  · rw [rounded, unit_of_le less, units_one, Nat.mul_one]
  · decide

theorem unit_mono (less : count ≤ other) : Rounding.unit count ≤ Rounding.unit other := by
  apply Nat.pow_le_pow_right Nat.two_pos
  apply Nat.sub_le_sub_right
  rw [Nat.log2_eq_log_two, Nat.log2_eq_log_two]
  exact Nat.log_mono_right less

theorem rounded_lt (apart : count + Rounding.unit other < other) :
    rounded count < rounded other := by
  have mono : Rounding.unit count ≤ Rounding.unit other := unit_mono (by omega)
  have below := (units_error (Nat.two_pow_pos (count.log2 - 23)) count).2
  have above := (units_error (Nat.two_pow_pos (other.log2 - 23)) other).1
  unfold rounded Rounding.unit at *
  omega

theorem unit_mul_le (large : 2 ^ 23 ≤ count) : Rounding.unit count * 2 ^ 23 ≤ count := by
  have nonzero : count ≠ 0 := by omega
  have digits := (Nat.le_log2 nonzero).mpr large
  rw [Rounding.unit, ← Nat.pow_add, Nat.sub_add_cancel digits]
  exact Nat.log2_self_le nonzero

end Rounding

open Rounding
open Float.Model (Format UnpackedFloat totalExponent)
open Float.Model.UnpackedFloat

/-! ## Rounding of a significand -/

section Significand

variable {mantissa shift : Nat} {exponent : Int}

theorem shiftRight_exact (mantissa shift : Nat) :
    ExtendedMantissa.ofMantissaAndAccuracy mantissa .exact >>> (shift + 1) =
      ⟨mantissa / 2 ^ (shift + 1), mantissa / 2 ^ shift % 2 != 0, mantissa % 2 ^ shift != 0⟩ := by
  induction shift with
  | zero =>
      simp [HShiftRight.hShiftRight, Nat.repeat, ExtendedMantissa.ofMantissaAndAccuracy,
        ExtendedMantissa.shiftRightOne, Nat.mod_one]
  | succ shift ih =>
      change (ExtendedMantissa.ofMantissaAndAccuracy mantissa .exact >>>
        (shift + 1)).shiftRightOne = _
      rw [ih, ExtendedMantissa.shiftRightOne]
      dsimp only
      rw [Nat.div_div_eq_div_mul, ← Nat.pow_succ, Nat.mod_pow_succ]
      congr 1
      rcases Nat.mod_two_eq_zero_or_one (mantissa / 2 ^ shift) with even | odd
      · simp [even]
      · simp [odd]

theorem roundedMantissa_eq (mantissa : Nat) (round sticky : Bool) :
    (ExtendedMantissa.mk mantissa round sticky).roundedMantissa =
      if round = true ∧ (sticky = true ∨ mantissa % 2 = 1) then mantissa + 1 else mantissa := by
  cases round <;> cases sticky <;>
    simp [ExtendedMantissa.roundedMantissa, ExtendedMantissa.accuracy, Accuracy.roundToNearestEven]
  split <;> omega

theorem roundedMantissa_shiftRight (mantissa shift : Nat) :
    (ExtendedMantissa.ofMantissaAndAccuracy mantissa .exact >>> shift).roundedMantissa =
      units (2 ^ shift) mantissa := by
  cases shift with
  | zero =>
      rw [Nat.pow_zero, units_one]
      rfl
  | succ shift =>
      have low : mantissa % 2 ^ shift < 2 ^ shift := Nat.mod_lt _ (Nat.two_pow_pos shift)
      rw [shiftRight_exact, roundedMantissa_eq, units, Nat.mod_pow_succ, Nat.pow_succ]
      simp only [bne_iff_ne]
      rcases Nat.mod_two_eq_zero_or_one (mantissa / 2 ^ shift) with even | odd
      · rw [even, if_neg (by omega), if_pos (by omega)]
      · rw [odd]
        split <;> split <;> omega

theorem log2_eq_iff (positive : 0 < mantissa) : mantissa.log2 = 23 + shift ↔
    2 ^ 23 * 2 ^ shift ≤ mantissa ∧ mantissa < 2 ^ 24 * 2 ^ shift := by
  rw [← Nat.pow_add, ← Nat.pow_add, Nat.log2_eq_iff positive.ne', Nat.add_right_comm]

theorem shiftToTargetExponent_exact (digits : mantissa.log2 = 23 + shift)
    (least : -149 ≤ exponent + shift) :
    shiftToTargetExponent .binary32 mantissa exponent .exact =
      (ExtendedMantissa.ofMantissaAndAccuracy mantissa .exact >>> shift, exponent + shift) := by
  have target : Format.binary32.targetExponent (totalExponent mantissa exponent) =
      exponent + shift := by
    simp only [Format.targetExponent, totalExponent, digits, Format.mantissaBits,
      Format.minExponent]
    omega
  have distance : (exponent + shift - exponent).toNat = shift := by omega
  rw [shiftToTargetExponent, target, shiftToExponent, distance]

theorem roundWithAccuracy_exact (sign : Sign) (exponent : Int) (positive : 0 < mantissa)
    (digits : mantissa.log2 = 23 + shift) (least : -149 ≤ exponent + shift) :
    ∃ kept carry isPositive, 2 ^ 23 ≤ kept ∧ kept < 2 ^ 24 ∧ carry ≤ 1 ∧
      kept * 2 ^ carry = units (2 ^ shift) mantissa ∧
      roundWithAccuracy .binary32 sign mantissa exponent .exact =
        .finite sign kept (exponent + shift + (carry : Nat)) isPositive := by
  obtain ⟨lower, upper⟩ := (log2_eq_iff positive).mp digits
  obtain ⟨atLeast, atMost⟩ := units_bounds lower upper
  have first : roundWithAccuracy .binary32 sign mantissa exponent .exact =
      let last := shiftToTargetExponent .binary32 (units (2 ^ shift) mantissa) (exponent + shift)
        .exact
      if zero : last.1.mantissa = 0 then .zero sign
      else .finite sign last.1.mantissa last.2 (Nat.pos_of_ne_zero zero) := by
    rw [roundWithAccuracy, shiftToTargetExponent_exact digits least]
    dsimp only
    rw [roundedMantissa_shiftRight]
  rcases Nat.lt_or_eq_of_le atMost with small | full
  · have plain : (units (2 ^ shift) mantissa).log2 = 23 + 0 :=
      (log2_eq_iff (by omega)).mpr (by omega)
    rw [shiftToTargetExponent_exact plain (by omega)] at first
    refine ⟨units (2 ^ shift) mantissa, 0, by omega, atLeast, small, Nat.zero_le 1, by omega, ?_⟩
    rw [first]
    exact dif_neg (show units (2 ^ shift) mantissa ≠ 0 by omega)
  · have whole : (2 ^ 24).log2 = 23 + 1 := Nat.log2_two_pow
    rw [full, shiftToTargetExponent_exact whole (by omega)] at first
    refine ⟨2 ^ 23, 1, by decide, by decide, by decide, Nat.le_refl 1, full.symm, ?_⟩
    rw [first]
    rfl

end Significand

theorem float_lt_iff {number other : Float32} : number < other ↔
    UnpackedFloat.lt number.toModel.unpack other.toModel.unpack = true := by
  change decide (number.toModel < other.toModel) = true ↔ _
  rw [decide_eq_true_iff]
  rfl

/-! ## Normal numbers -/

/-- The number `mantissa * 2 ^ place / 2 ^ 23` with all 24 digits of its significand in use. -/
structure Normal (number : Float32) (mantissa place : Nat) : Prop where
  lower : 2 ^ 23 ≤ mantissa
  upper : mantissa < 2 ^ 24
  most : place ≤ 100
  exists_eq : ∃ positive, number = ⟨.pack (.finite .positive mantissa (place - 23) positive)⟩

theorem pack_finite {mantissa place : Nat} (lower : 2 ^ 23 ≤ mantissa) (upper : mantissa < 2 ^ 24)
    (most : place ≤ 100) (positive : 0 < mantissa) :
    pack .binary32 (.finite .positive mantissa (place - 23) positive) =
      packComponents .binary32 .positive (BitVec.ofNat 8 (place + 127))
        (BitVec.ofNat 23 mantissa) := by
  have bias : ((Format.binary32.exponentBias : Nat) : Int) = 127 := rfl
  have digits : mantissa.log2 = 23 := (Nat.log2_eq_iff positive.ne').mpr ⟨lower, upper⟩
  have biased : ((place : Int) - 23 + 127 + (23 : Nat)).toNat = place + 127 := by omega
  dsimp only [pack]
  rw [bias, biased, digits, if_neg (by omega), if_pos (by rfl)]

namespace Normal

variable {number other : Float32} {mantissa place otherMantissa otherPlace : Nat}

theorem unpack_eq (normal : Normal number mantissa place) :
    ∃ positive, number.toModel.unpack = .finite .positive mantissa (place - 23) positive := by
  obtain ⟨lower, upper, most, positive, rfl⟩ := normal
  refine ⟨positive, ?_⟩
  have bias : ((Format.binary32.exponentBias : Nat) : Int) = 127 := rfl
  have exponent : (BitVec.ofNat 8 (place + 127)).toNat = place + 127 := by
    rw [BitVec.toNat_ofNat]
    omega
  have notZero : BitVec.ofNat 8 (place + 127) ≠ 0#8 := by
    intro same
    rw [← BitVec.toNat_inj, exponent] at same
    exact absurd same (Nat.succ_ne_zero _)
  have notOnes : BitVec.ofNat 8 (place + 127) ≠ -1#8 := by
    intro same
    have ones : (-1#8 : BitVec 8).toNat = 255 := rfl
    rw [← BitVec.toNat_inj, exponent, ones] at same
    omega
  have significand : (1#1 ++ BitVec.ofNat 23 mantissa).toNat = mantissa := by
    rw [BitVec.toNat_append, ← Nat.shiftLeft_add_eq_or_of_lt (BitVec.isLt _), BitVec.toNat_ofNat,
      BitVec.toNat_ofNat, Nat.shiftLeft_eq]
    omega
  change unpack .binary32 (pack .binary32 (.finite .positive mantissa (place - 23) positive)) = _
  rw [pack_finite lower upper most positive, unpack]
  simp only [unpackMantissa_packComponents, unpackExponent_packComponents,
    unpackSign_packComponents]
  rw [if_neg notOnes, if_neg notZero]
  congr 1
  rw [exponent, bias]
  omega

theorem value_lt_iff (left : Normal number mantissa place)
    (right : Normal other otherMantissa otherPlace) :
    mantissa * 2 ^ place < otherMantissa * 2 ^ otherPlace ↔
      place < otherPlace ∨ place = otherPlace ∧ mantissa < otherMantissa := by
  have apart {m n p q : Nat} (upper : m < 2 ^ 24) (lower : 2 ^ 23 ≤ n) (less : p < q) :
      m * 2 ^ p < n * 2 ^ q := by
    calc m * 2 ^ p < 2 ^ 24 * 2 ^ p := Nat.mul_lt_mul_of_pos_right upper (Nat.two_pow_pos p)
      _ = 2 ^ 23 * 2 ^ (p + 1) := by
        rw [Nat.pow_succ]
        omega
      _ ≤ n * 2 ^ q := Nat.mul_le_mul lower (Nat.pow_le_pow_right Nat.two_pos less)
  rcases Nat.lt_trichotomy place otherPlace with less | rfl | greater
  · simp [less, apart left.upper right.lower less]
  · simp [Nat.mul_lt_mul_right (Nat.two_pow_pos place)]
  · have reverse := apart right.upper left.lower greater
    constructor
    · intro less
      exact absurd less (Nat.lt_asymm reverse)
    · rintro (less | ⟨same, -⟩)
      · exact absurd less (Nat.lt_asymm greater)
      · exact absurd same greater.ne'

theorem lt_iff (left : Normal number mantissa place)
    (right : Normal other otherMantissa otherPlace) :
    number < other ↔ mantissa * 2 ^ place < otherMantissa * 2 ^ otherPlace := by
  obtain ⟨positive, leftEq⟩ := left.unpack_eq
  obtain ⟨otherPositive, rightEq⟩ := right.unpack_eq
  rw [value_lt_iff left right, float_lt_iff, leftEq, rightEq]
  change (some ((compare ((place : Int) - 23) (otherPlace - 23)).then
    (compare mantissa otherMantissa)) == some .lt) = true ↔ _
  rw [beq_iff_eq, Option.some_inj, Ordering.then_eq_lt, Int.compare_eq_lt, Int.compare_eq_eq,
    Nat.compare_eq_lt]
  omega

theorem one_mul (normal : Normal number mantissa place) : 1 * number = number := by
  obtain ⟨_, unpacked⟩ := normal.unpack_eq
  obtain ⟨lower, upper, most, positive, rfl⟩ := normal
  have digits : (2 ^ 23 * mantissa).log2 = 23 + 23 := (log2_eq_iff (by omega)).mpr (by omega)
  obtain ⟨kept, carry, isPositive, atLeast, below, carries, same, rounds⟩ :=
    roundWithAccuracy_exact .positive (-23 + (place - 23)) (by omega) digits (by omega)
  rw [units_mul (by decide)] at same
  obtain rfl : carry = 0 := by
    by_contra carried
    obtain rfl : carry = 1 := by omega
    omega
  obtain rfl : kept = mantissa := by omega
  change Float32.ofModel (.pack (mul .binary32 (1 : Float32).toModel.unpack
    (Float32.Model.pack (.finite .positive kept (place - 23) positive)).unpack)) = _
  have one : (1 : Float32).toModel.unpack = .finite .positive (2 ^ 23) (-23) (by decide) := rfl
  have exponent : -23 + ((place : Int) - 23) + (23 : Nat) + (0 : Nat) = place - 23 := by omega
  dsimp only at unpacked
  rw [one, unpacked]
  change Float32.ofModel (.pack (roundWithAccuracy .binary32 .positive (2 ^ 23 * kept)
    (-23 + (place - 23)) .exact)) = _
  simp only [rounds, exponent]

end Normal

/-! ## Rounding of a count -/

section Count

variable {count left right : Nat}

theorem exists_decreased (positive : 0 < count) : ∃ mantissa shift,
    decreaseExponent count 0 (count.log2 - 23) = (mantissa, (count.log2 : Int) - 23 - (shift : Nat)) ∧
      0 < mantissa ∧ mantissa.log2 = 23 + shift ∧
      units (2 ^ shift) mantissa * 2 ^ count.log2 = rounded count * 2 ^ 23 := by
  have lower := Nat.log2_self_le positive.ne'
  have upper : count < 2 ^ (count.log2 + 1) := Nat.lt_log2_self
  unfold decreaseExponent
  by_cases few : count.log2 ≤ 23
  · have distance : (0 - ((count.log2 : Int) - 23)).toNat = 23 - count.log2 := by omega
    have full : 2 ^ count.log2 * 2 ^ (23 - count.log2) = 2 ^ 23 := by
      rw [← Nat.pow_add, Nat.add_sub_cancel' few]
    have atLeast := Nat.mul_le_mul_right (2 ^ (23 - count.log2)) lower
    have below := Nat.mul_lt_mul_of_pos_right upper (Nat.two_pow_pos (23 - count.log2))
    rw [Nat.pow_succ, Nat.mul_right_comm] at below
    refine ⟨count * 2 ^ (23 - count.log2), 0, ?_, by omega, (log2_eq_iff (by omega)).mpr ?_, ?_⟩
    · rw [distance]
      exact Prod.ext (Nat.shiftLeft_eq _ _) (by dsimp only; omega)
    · omega
    · rw [Nat.pow_zero, units_one, Nat.mul_assoc, Nat.mul_comm (2 ^ _), full, rounded, Rounding.unit,
        Nat.sub_eq_zero_of_le few, Nat.pow_zero, units_one, Nat.mul_one]
  · have distance : (0 - ((count.log2 : Int) - 23)).toNat = 0 := by omega
    refine ⟨count, count.log2 - 23, ?_, positive, by omega, ?_⟩
    · rw [distance]
      exact Prod.ext rfl (by dsimp only; omega)
    · rw [rounded, Rounding.unit, Nat.mul_assoc, ← Nat.pow_add, Nat.sub_add_cancel (by omega)]

theorem round_count (positive : 0 < count) :
    ∃ kept carry isPositive, 2 ^ 23 ≤ kept ∧ kept < 2 ^ 24 ∧ carry ≤ 1 ∧
      kept * 2 ^ (count.log2 + carry) = rounded count * 2 ^ 23 ∧
      UnpackedFloat.round .binary32 .positive count 0 =
        .finite .positive kept ((count.log2 + carry : Nat) - 23) isPositive := by
  have target : Format.binary32.targetExponent (totalExponent count 0) = count.log2 - 23 := by
    simp only [Format.targetExponent, totalExponent, Format.mantissaBits, Format.minExponent]
    omega
  obtain ⟨mantissa, shift, decreased, isPositive, digits, value⟩ := exists_decreased positive
  obtain ⟨kept, carry, keptPositive, lower, upper, carries, same, rounds⟩ :=
    roundWithAccuracy_exact .positive (count.log2 - 23 - (shift : Nat)) isPositive digits
      (by omega)
  have exponent : (count.log2 : Int) - 23 - (shift : Nat) + shift + carry =
      (count.log2 + carry : Nat) - 23 := by omega
  refine ⟨kept, carry, keptPositive, lower, upper, carries, ?_, ?_⟩
  · rw [Nat.add_comm, Nat.pow_add, ← Nat.mul_assoc, same, value]
  · rw [UnpackedFloat.round, target, decreased]
    simpa only [exponent] using rounds

theorem nearestFloat_normal (positive : 0 < count) (small : count < 2 ^ 64) :
    ∃ mantissa place, Normal (nearestFloat count) mantissa place ∧
      mantissa * 2 ^ place = rounded count * 2 ^ 23 := by
  obtain ⟨kept, carry, isPositive, lower, upper, carries, value, rounds⟩ := round_count positive
  have digits := (Nat.log2_lt positive.ne').mpr small
  have greater : compare (count : Int) 0 = .gt := Int.compare_eq_gt.mpr (by omega)
  have converted : UnpackedFloat.ofUInt64 .binary32 count.toUInt64 =
      UnpackedFloat.round .binary32 .positive count 0 := by
    rw [UnpackedFloat.ofUInt64, UInt64.toNat_ofNat_of_lt' small, UnpackedFloat.ofNat,
      UnpackedFloat.ofInt, UnpackedFloat.normalize, greater]
    rfl
  refine ⟨kept, count.log2 + carry, ⟨lower, upper, by omega, isPositive, ?_⟩, value⟩
  rw [← rounds, ← converted]
  rfl

theorem nearestFloat_zero : (nearestFloat 0).toModel.unpack = .zero .positive := rfl

theorem nearestFloat_mod (count : Nat) : nearestFloat (count % 2 ^ 64) = nearestFloat count := by
  rw [nearestFloat, nearestFloat]
  congr 1
  exact UInt64.toNat_inj.mp (by simp)

theorem nearestFloat_lt_iff (leftSmall : left < 2 ^ 64) (rightSmall : right < 2 ^ 64) :
    nearestFloat left < nearestFloat right ↔ rounded left < rounded right := by
  rcases Nat.eq_zero_or_pos left with rfl | leftPositive
  · rcases Nat.eq_zero_or_pos right with rfl | rightPositive
    · decide
    · obtain ⟨mantissa, place, normal, value⟩ := nearestFloat_normal rightPositive rightSmall
      obtain ⟨positive, unpacked⟩ := normal.unpack_eq
      have isPositive : 0 < rounded right := by
        have digits := Nat.mul_pos positive (Nat.two_pow_pos place)
        omega
      rw [float_lt_iff, unpacked, nearestFloat_zero]
      exact iff_of_true rfl isPositive
  · obtain ⟨mantissa, place, normal, value⟩ := nearestFloat_normal leftPositive leftSmall
    rcases Nat.eq_zero_or_pos right with rfl | rightPositive
    · obtain ⟨positive, unpacked⟩ := normal.unpack_eq
      rw [float_lt_iff, unpacked, nearestFloat_zero]
      exact iff_of_false nofun (Nat.not_lt_zero _)
    · obtain ⟨otherMantissa, otherPlace, otherNormal, otherValue⟩ :=
        nearestFloat_normal rightPositive rightSmall
      rw [normal.lt_iff otherNormal, value, otherValue]
      exact Nat.mul_lt_mul_right (by decide)

theorem one_mul_nearestFloat (small : count < 2 ^ 64) :
    1 * nearestFloat count = nearestFloat count := by
  rcases Nat.eq_zero_or_pos count with rfl | positive
  · rfl
  · obtain ⟨_, _, normal, -⟩ := nearestFloat_normal positive small
    exact normal.one_mul

theorem nearestFloat_cases (count : Nat) : (nearestFloat count).toModel.unpack = .zero .positive ∨
    ∃ mantissa exponent positive,
      (nearestFloat count).toModel.unpack = .finite .positive mantissa exponent positive := by
  rw [← nearestFloat_mod]
  rcases Nat.eq_zero_or_pos (count % 2 ^ 64) with zero | positive
  · rw [zero]
    exact .inl rfl
  · obtain ⟨mantissa, place, normal, -⟩ :=
      nearestFloat_normal positive (Nat.mod_lt _ (Nat.two_pow_pos 64))
    exact .inr ⟨mantissa, _, normal.unpack_eq⟩

theorem unpack_of_beq_zero {number : Float32} (zero : (number == 0) = true) :
    ∃ sign, number.toModel.unpack = .zero sign := by
  change UnpackedFloat.beq number.toModel.unpack (.zero .positive) = true at zero
  rcases ((beq_iff_ne_notANumber_and_eq _ _).mp zero).2.2 with same | ⟨same, -⟩ | ⟨same, -⟩
  · exact ⟨_, same⟩
  · exact ⟨_, same⟩
  · exact ⟨_, same⟩

theorem unpack_zero_mul {number : Float32} (zero : (number == 0) = true) (count : Nat) :
    ∃ sign, (number * nearestFloat count).toModel.unpack = .zero sign := by
  obtain ⟨sign, isZero⟩ := unpack_of_beq_zero zero
  have product : mul .binary32 number.toModel.unpack (nearestFloat count).toModel.unpack =
      .zero (sign * .positive) := by
    rcases nearestFloat_cases count with none | ⟨_, _, _, some⟩
    · rw [isZero, none]
      rfl
    · rw [isZero, some]
      rfl
  have packed (sign : Sign) : (Float32.Model.pack (.zero sign)).unpack = .zero sign := by
    cases sign <;> rfl
  refine ⟨sign * .positive, ?_⟩
  rw [← packed, ← product]
  rfl

theorem not_lt_zero_mul {number : Float32} (zero : (number == 0) = true) (left right : Nat) :
    ¬ nearestFloat left < number * nearestFloat right := by
  obtain ⟨sign, product⟩ := unpack_zero_mul zero right
  rw [float_lt_iff, product]
  rcases nearestFloat_cases left with none | ⟨_, _, _, some⟩
  · rw [none]
    exact nofun
  · rw [some]
    exact nofun

end Count
end CircuitPlan
