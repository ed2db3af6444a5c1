import CircuitPlan.Distribution.Families

namespace CircuitPlan

theorem WordSource.length_draw (source : WordSource) (count : Nat) :
    (source.draw count).1.length = count := by
  rw [draw, List.length_map, List.length_range]

namespace Distribution

def DrawsFit (dist : Distribution) : Prop :=
  ∀ count perturbation source,
    (dist.initial count perturbation source).1.length = count * dist.numParameters

theorem length_lt_two {words : List UInt32}
    (short : ∀ first second rest, words = first :: second :: rest → False) : words.length < 2 := by
  cases words with
  | nil => exact Nat.two_pos
  | cons first rest =>
      cases rest with
      | nil => exact Nat.one_lt_two
      | cons second rest => exact absurd rfl (short first second rest)

theorem length_bernoulliDraw (perturbation : Float32) (words : List UInt32) :
    (bernoulliDraw perturbation words).length = words.length / 2 := by
  fun_induction bernoulliDraw perturbation words with
  | case1 first second rest success failure ih =>
      rw [List.length_cons, ih, List.length_cons, List.length_cons]
      omega
  | case2 words short =>
      have few := length_lt_two short
      rw [List.length_nil]
      omega

theorem length_gaussianDraw (mu sigma minSigma perturbation : Float32) (words : List UInt32) :
    (gaussianDraw mu sigma minSigma perturbation words).length = words.length / 2 * 2 := by
  fun_induction gaussianDraw mu sigma minSigma perturbation words with
  | case1 first second rest ih =>
      simp only [List.length_cons, ih]
      omega
  | case2 words short =>
      have few := length_lt_two short
      rw [List.length_nil]
      omega

theorem categorical_drawsFit (numCats : Nat) : (categorical numCats).DrawsFit := by
  intro count perturbation source
  have keeps (row : List Float32) : (scaleToOne row).length = row.length := List.length_map _
  change (inRows numCats scaleToOne ((source.draw (count * numCats)).1.map fun word =>
    (WordSource.unit word * perturbation).exp)).length = count * numCats
  rcases Nat.eq_zero_or_pos numCats with rfl | positive
  · simp [inRows, WordSource.draw]
  · rw [length_inRows positive keeps, List.length_map, source.length_draw]

theorem bernoulli_drawsFit : bernoulli.DrawsFit := by
  intro count perturbation source
  change (bernoulliDraw perturbation (source.draw (count * 2)).1).length = count * 1
  rw [length_bernoulliDraw, source.length_draw]
  omega

theorem gaussian_drawsFit (mu sigma : Float32) (minSigma : Single) :
    (gaussian mu sigma minSigma).DrawsFit := by
  intro count perturbation source
  change (gaussianDraw mu sigma minSigma.value perturbation (source.draw (count * 2)).1).length =
    count * 2
  rw [length_gaussianDraw, source.length_draw]
  omega

inductive Standard : Distribution → Prop
  | categorical (numCats : Nat) : Standard (categorical numCats)
  | bernoulli : Standard bernoulli
  | gaussian (mu sigma : Float32) (minSigma : Single) : Standard (gaussian mu sigma minSigma)

theorem Standard.drawsFit {dist : Distribution} (standard : dist.Standard) : dist.DrawsFit := by
  cases standard with
  | categorical numCats => exact categorical_drawsFit numCats
  | bernoulli => exact bernoulli_drawsFit
  | gaussian mu sigma minSigma => exact gaussian_drawsFit mu sigma minSigma

end Distribution
end CircuitPlan
