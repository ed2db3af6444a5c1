import Mathlib.Logic.Function.Basic
import CircuitPlan.Fingerprint.Plan
import CircuitPlan.Proofs.Circuit.Acceptance

namespace CircuitPlan

namespace Fingerprint

variable {hash : UInt64} {byte other : UInt8} {bytes left right : List UInt8}

/-- The inverse of the multiplier modulo `2 ^ 64`. -/
def inverse : UInt64 := 0xce965057aff6957b

theorem multiplier_mul_inverse : multiplier * inverse = 1 := by decide

def unmix (hash : UInt64) (byte : UInt8) : UInt64 := hash * inverse ^^^ byte.toUInt64

theorem unmix_mix : unmix (mix hash byte) byte = hash := by
  rw [unmix, mix, UInt64.mul_assoc, multiplier_mul_inverse, UInt64.mul_one, UInt64.xor_assoc,
    UInt64.xor_self, UInt64.xor_zero]

theorem mix_unmix : mix (unmix hash byte) byte = hash := by
  rw [mix, unmix, UInt64.xor_assoc, UInt64.xor_self, UInt64.xor_zero, UInt64.mul_assoc,
    UInt64.mul_comm inverse, multiplier_mul_inverse, UInt64.mul_one]

theorem mix_bijective (byte : UInt8) : Function.Bijective fun hash => mix hash byte :=
  Function.bijective_iff_has_inverse.mpr
    ⟨fun hash => unmix hash byte, fun _ => unmix_mix, fun _ => mix_unmix⟩

theorem mix_inj : mix hash byte = mix hash other ↔ byte = other := by
  constructor
  · intro same
    have undone := congrArg (fun mixed => mixed * inverse) same
    simp only [mix, UInt64.mul_assoc, multiplier_mul_inverse, UInt64.mul_one] at undone
    exact UInt8.toUInt64_inj.mp ((UInt64.xor_right_inj hash).mp undone)
  · rintro rfl
    rfl

theorem extend_append {more : List UInt8} :
    extend hash (bytes ++ more) = extend (extend hash bytes) more :=
  List.foldl_append

theorem extend_bijective (bytes : List UInt8) : Function.Bijective fun hash => extend hash bytes := by
  induction bytes with
  | nil => exact Function.bijective_id
  | cons byte bytes ih => exact ih.comp (mix_bijective byte)

structure DifferOnce (left right : List UInt8) : Prop where
  length_eq : left.length = right.length
  once : (left.zip right).countP (fun pair => pair.1 != pair.2) = 1

instance (left right : List UInt8) : Decidable (DifferOnce left right) :=
  decidable_of_iff (left.length = right.length ∧
      (left.zip right).countP (fun pair => pair.1 != pair.2) = 1)
    ⟨fun ⟨length_eq, once⟩ => ⟨length_eq, once⟩, fun ⟨length_eq, once⟩ => ⟨length_eq, once⟩⟩

theorem eq_of_countP_zip {left right : List UInt8} (length_eq : left.length = right.length)
    (never : (left.zip right).countP (fun pair => pair.1 != pair.2) = 0) : left = right := by
  rw [List.countP_eq_zero] at never
  apply List.ext_getElem length_eq
  intro index inside insideRight
  have pair : (left[index], right[index]) ∈ left.zip right :=
    List.mem_of_getElem? (List.getElem?_zip_eq_some.mpr
      ⟨List.getElem?_eq_getElem inside, List.getElem?_eq_getElem insideRight⟩)
  simpa using never _ pair

theorem DifferOnce.split (differ : DifferOnce left right) :
    ∃ front byte other back, byte ≠ other ∧ left = front ++ byte :: back ∧
      right = front ++ other :: back := by
  obtain ⟨length_eq, once⟩ := differ
  induction left generalizing right with
  | nil => simp at once
  | cons byte left ih =>
      cases right with
      | nil => simp at once
      | cons other right =>
          have shorter := Nat.succ.inj length_eq
          rw [List.zip_cons_cons, List.countP_cons] at once
          by_cases different : byte = other
          · subst different
            obtain ⟨front, before, after, back, changed, rfl, rfl⟩ :=
              ih shorter (by simpa using once)
            exact ⟨byte :: front, before, after, back, changed, rfl, rfl⟩
          · have rest := eq_of_countP_zip shorter (by simpa [different] using once)
            exact ⟨[], byte, other, left, different, rfl, by rw [rest]; rfl⟩

theorem DifferOnce.extend_ne (differ : DifferOnce left right) (hash : UInt64) :
    extend hash left ≠ extend hash right := by
  obtain ⟨front, byte, other, back, different, rfl, rfl⟩ := differ.split
  rw [extend_append, extend_append]
  intro same
  have mixed : mix (extend hash front) byte = mix (extend hash front) other :=
    (extend_bijective back).injective same
  exact different (mix_inj.mp mixed)

/-- What the hash of a byte string tells. -/
structure KeepsApart (bytes : List UInt8) : Prop where
  bijective : Function.Bijective fun hash => extend hash bytes
  append : ∀ hash more, extend hash (bytes ++ more) = extend (extend hash bytes) more
  seeded : ∀ other, DifferOnce bytes other → ∀ hash, extend hash bytes ≠ extend hash other
  hashed : ∀ other, DifferOnce bytes other → ofBytes bytes ≠ ofBytes other
  encoded : ∀ other, DifferOnce bytes other → ofEncoding (some bytes) ≠ ofEncoding (some other)
  plans : ∀ (plan another : Plan) (other : List UInt8), Encoding.plan plan = some bytes →
    Encoding.plan another = some other → DifferOnce bytes other →
      ∃ first second, plan.fingerprint = some first ∧ another.fingerprint = some second ∧
        first ≠ second

theorem keepsApart (bytes : List UInt8) : KeepsApart bytes where
  bijective := extend_bijective bytes
  append _ _ := extend_append
  seeded _ differ hash := differ.extend_ne hash
  hashed _ differ := differ.extend_ne offsetBasis
  encoded _ differ same := differ.extend_ne offsetBasis (Option.some.inj same)
  plans plan another other written otherWritten differ := by
    refine ⟨ofBytes bytes, ofBytes other, ?_, ?_, differ.extend_ne offsetBasis⟩
    · rw [Plan.fingerprint, written]
      rfl
    · rw [Plan.fingerprint, otherWritten]
      rfl

end Fingerprint

theorem Plan.twin_fingerprints : ∃ plan another first second,
    ofCircuit Circuit.twin {} = .ok plan ∧
      ofCircuit Circuit.twin { reduction := { maxTied := 2049 } } = .ok another ∧
      plan.fingerprint = some first ∧ another.fingerprint = some second ∧ first ≠ second := by
  have passes : (ofCircuit Circuit.twin {}).toOption.any (fun plan =>
      (ofCircuit Circuit.twin { reduction := { maxTied := 2049 } }).toOption.any fun another =>
        (Encoding.plan plan).any fun bytes => (Encoding.plan another).any fun other =>
          decide (Fingerprint.DifferOnce bytes other)) = true := by decide +kernel
  obtain ⟨plan, compiled, passes⟩ := exists_ok_of_any passes
  obtain ⟨another, recompiled, passes⟩ := exists_ok_of_any passes
  obtain ⟨bytes, written, passes⟩ := (Option.any_eq_true _ _).mp passes
  obtain ⟨other, otherWritten, differ⟩ := (Option.any_eq_true _ _).mp passes
  obtain ⟨first, second, isFirst, isSecond, different⟩ := (Fingerprint.keepsApart bytes).plans plan
    another other written otherWritten (of_decide_eq_true differ)
  exact ⟨plan, another, first, second, compiled, recompiled, isFirst, isSecond, different⟩

end CircuitPlan
