import CircuitPlan.Distribution

/-!
# The standard distributions

Categorical, Bernoulli and Gaussian inputs of one variable.
-/

namespace CircuitPlan.Distribution

def inRows {α : Type} (width : Nat) (f : List α → List α) (xs : List α) : List α :=
  (List.range ((xs.length + width - 1) / width)).flatMap fun index =>
    f ((xs.drop (index * width)).take width)

theorem length_inRows {α : Type} {width : Nat} {f : List α → List α} (positive : 0 < width)
    (keeps : ∀ row, (f row).length = row.length) (xs : List α) :
    (inRows width f xs).length = xs.length := by
  have covered (count : Nat) : ((List.range count).flatMap fun index =>
      f ((xs.drop (index * width)).take width)).length = min (count * width) xs.length := by
    induction count with
    | zero => simp
    | succ count ih =>
        rw [List.range_succ, List.flatMap_append, List.length_append, ih, List.flatMap_singleton,
          keeps, List.length_take, List.length_drop, Nat.succ_mul]
        omega
  have enough : xs.length ≤ (xs.length + width - 1) / width * width := by
    have whole := Nat.div_add_mod' (xs.length + width - 1) width
    have rest := Nat.mod_lt (xs.length + width - 1) positive
    omega
  rw [inRows, covered, Nat.min_eq_right enough]

def scaleToOne (row : List Float32) : List Float32 := row.map (· / total row)

/-- Negative entries count as zero; a row without positive finite mass becomes uniform. -/
def normalizeRow (numCats : Nat) (row : List Float32) : List Float32 :=
  let clipped := row.map (larger · 0)
  if total clipped > 0 && (total clipped).isFinite then scaleToOne clipped
  else row.map fun _ => 1 / nearestFloat numCats

theorem length_normalizeRow (numCats : Nat) (row : List Float32) :
    (normalizeRow numCats row).length = row.length := by
  unfold normalizeRow scaleToOne
  dsimp only
  split <;> simp

def categorical (numCats : Nat) : Distribution where
  signature := "Categorical"
  numVars := 1
  numParameters := numCats
  numFlows := numCats
  metadata := [.ofValue (nearestFloat numCats)]
  initial numNodes perturbation source :=
    let (words, source) := source.draw (numNodes * numCats)
    let weights := words.map fun word => (WordSource.unit word * perturbation).exp
    (inRows numCats scaleToOne weights, source)
  normalize params := if numCats = 0 then params else inRows numCats (normalizeRow numCats) params
  length_normalize params := by
    split
    · rfl
    · exact length_inRows (Nat.pos_of_ne_zero ‹_›) (length_normalizeRow numCats) params

def clampProbability (p : Float32) : Float32 :=
  if p.isNaN then 0.5 else if p < 0 then 0 else if 1 < p then 1 else p

def bernoulliDraw (perturbation : Float32) : List UInt32 → List Float32
  | first :: second :: rest =>
      let success := (WordSource.unit first * perturbation).exp
      let failure := (WordSource.unit second * perturbation).exp
      success / (success + failure) :: bernoulliDraw perturbation rest
  | _ => []

def bernoulli : Distribution where
  signature := "Bernoulli"
  numVars := 1
  numParameters := 1
  numFlows := 1
  metadata := []
  initial numNodes perturbation source :=
    let (words, source) := source.draw (numNodes * 2)
    (bernoulliDraw perturbation words, source)
  normalize params := params.map clampProbability
  length_normalize _ := List.length_map _

/-- Two draws move the mean by up to `perturbation` deviations and stretch the deviation by up to
a tenth. -/
def gaussianDraw (mu sigma minSigma perturbation : Float32) : List UInt32 → List Float32
  | first :: second :: rest =>
      (mu + (WordSource.unit first * 2 - 1) * perturbation * sigma) ::
        larger (sigma * (1 + WordSource.unit second * 0.1)) minSigma ::
          gaussianDraw mu sigma minSigma perturbation rest
  | _ => []

def raiseDeviations (minSigma : Float32) : List Float32 → List Float32
  | mu :: sigma :: rest => mu :: larger sigma minSigma :: raiseDeviations minSigma rest
  | rest => rest

theorem length_raiseDeviations (minSigma : Float32) (params : List Float32) :
    (raiseDeviations minSigma params).length = params.length := by
  induction params using raiseDeviations.induct with
  | case1 mu sigma rest ih => simp [raiseDeviations, ih]
  | case2 rest short => rw [raiseDeviations.eq_2 _ _ short]

/-- Each scalar node holds a mean and a deviation, and has flows for weight, weighted sum and
weighted sum of squares. -/
def gaussian (mu sigma : Float32) (minSigma : Single) : Distribution where
  signature := "Gaussian"
  numVars := 1
  numParameters := 2
  numFlows := 3
  metadata := [minSigma]
  initial numNodes perturbation source :=
    let (words, source) := source.draw (numNodes * 2)
    (gaussianDraw mu sigma minSigma.value perturbation words, source)
  normalize params := raiseDeviations minSigma.value params
  length_normalize := length_raiseDeviations minSigma.value

end CircuitPlan.Distribution
