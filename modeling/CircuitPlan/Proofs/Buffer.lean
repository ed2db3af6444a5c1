import CircuitPlan.Arithmetic
import CircuitPlan.Buffer
import CircuitPlan.Proofs.Checked

namespace CircuitPlan.Buffer

variable {F : Type} {buffer other : Array F} {start width : Nat}

def Agrees (target : Nat → F) (start : Nat) (run : List F) : Prop :=
  ∀ index, index < run.length → run[index]? = some (target (start + index))

theorem write_cons (buffer : Array F) (start : Nat) (number : F) (run : List F) :
    write buffer start (number :: run) =
      write (buffer.setIfInBounds start number) (start + 1) run := rfl

theorem size_write (buffer : Array F) (start : Nat) (run : List F) :
    (write buffer start run).size = buffer.size := by
  induction run generalizing buffer start with
  | nil => rfl
  | cons number run ih => rw [write_cons, ih, Array.size_setIfInBounds]

theorem Agrees.tail {target : Nat → F} {number : F} {run : List F}
    (agrees : Agrees target start (number :: run)) : Agrees target (start + 1) run := by
  intro index inside
  have entry := agrees (index + 1) (Nat.succ_lt_succ inside)
  rw [List.getElem?_cons_succ] at entry
  rw [entry, Nat.add_assoc, Nat.add_comm 1]

theorem getElem?_write_of_outside {run : List F} {offset : Nat}
    (outside : ¬ (start ≤ offset ∧ offset < start + run.length)) :
    (write buffer start run)[offset]? = buffer[offset]? := by
  induction run generalizing buffer start with
  | nil => rfl
  | cons number run ih =>
      rw [List.length_cons] at outside
      have different : start ≠ offset := by omega
      rw [write_cons, ih (by omega), Array.getElem?_setIfInBounds_ne different]

theorem getElem?_write_of_inside {target : Nat → F} {run : List F}
    (agrees : Agrees target start run) {offset : Nat} (above : start ≤ offset)
    (below : offset < start + run.length) (inside : offset < buffer.size) :
    (write buffer start run)[offset]? = some (target offset) := by
  induction run generalizing buffer start with
  | nil => exact absurd below (Nat.not_lt_of_le above)
  | cons number run ih =>
      rw [List.length_cons] at below
      rw [write_cons]
      by_cases first : start = offset
      · subst first
        have entry := agrees 0 (Nat.succ_pos _)
        rw [List.getElem?_cons_zero] at entry
        rw [getElem?_write_of_outside (by omega), Array.getElem?_setIfInBounds_self_of_lt inside,
          entry, Nat.add_zero]
      · exact ih agrees.tail (by omega) (by omega)
          (by rw [Array.size_setIfInBounds]; exact inside)

def Covers (runs : List (Nat × List F)) (offset : Nat) : Prop :=
  ∃ run ∈ runs, run.1 ≤ offset ∧ offset < run.1 + run.2.length

theorem writeAll_append (buffer : Array F) (first second : List (Nat × List F)) :
    writeAll buffer (first ++ second) = writeAll (writeAll buffer first) second := by
  rw [writeAll, writeAll, writeAll, List.foldl_append]

theorem size_writeAll (buffer : Array F) (runs : List (Nat × List F)) :
    (writeAll buffer runs).size = buffer.size := by
  induction runs generalizing buffer with
  | nil => rfl
  | cons run runs ih =>
      have step : writeAll buffer (run :: runs) = writeAll (write buffer run.1 run.2) runs := rfl
      rw [step, ih, size_write]

theorem writeAll_cons (buffer : Array F) (run : Nat × List F) (runs : List (Nat × List F)) :
    writeAll buffer (run :: runs) = writeAll (write buffer run.1 run.2) runs := rfl

section Runs

variable {target : Nat → F} {runs : List (Nat × List F)} {offset : Nat}

theorem getElem?_writeAll_of_not_covers (outside : ¬ Covers runs offset) :
    (writeAll buffer runs)[offset]? = buffer[offset]? := by
  induction runs generalizing buffer with
  | nil => rfl
  | cons run runs ih =>
      have outsideRest : ¬ Covers runs offset := by
        rintro ⟨other, member, within⟩
        exact outside ⟨other, List.mem_cons_of_mem _ member, within⟩
      have outsideFirst : ¬ (run.1 ≤ offset ∧ offset < run.1 + run.2.length) := by
        intro within
        exact outside ⟨run, List.mem_cons_self, within⟩
      rw [writeAll_cons, ih outsideRest, getElem?_write_of_outside outsideFirst]

theorem getElem?_writeAll_of_covers (agrees : ∀ run ∈ runs, Agrees target run.1 run.2)
    (covers : Covers runs offset) (inside : offset < buffer.size) :
    (writeAll buffer runs)[offset]? = some (target offset) := by
  induction runs generalizing buffer with
  | nil =>
      obtain ⟨run, member, -⟩ := covers
      cases member
  | cons run runs ih =>
      have agreesRest : ∀ other ∈ runs, Agrees target other.1 other.2 :=
        fun other member => agrees other (List.mem_cons_of_mem _ member)
      rw [writeAll_cons]
      by_cases later : Covers runs offset
      · exact ih agreesRest later (by rw [size_write]; exact inside)
      · obtain ⟨other, member, within⟩ := covers
        have first : other = run := by
          cases member with
          | head => rfl
          | tail _ member => exact absurd ⟨other, member, within⟩ later
        subst first
        rw [getElem?_writeAll_of_not_covers later,
          getElem?_write_of_inside (agrees other List.mem_cons_self) within.1 within.2 inside]

end Runs

theorem getElem?_write_add {run : List F} {index : Nat} (within : index < run.length)
    (inside : start + index < buffer.size) :
    (write buffer start run)[start + index]? = run[index]? := by
  have agrees : Agrees (fun offset => run.getD (offset - start) run[index]) start run := by
    intro other bound
    simp [bound]
  rw [getElem?_write_of_inside agrees (Nat.le_add_right _ _) (Nat.add_lt_add_left within _) inside]
  simp [within]

def Disjoint (left right : Nat × List F) : Prop := ∀ offset,
  left.1 ≤ offset ∧ offset < left.1 + left.2.length →
    ¬ (right.1 ≤ offset ∧ offset < right.1 + right.2.length)

theorem getElem?_writeAll_of_disjoint {runs : List (Nat × List F)}
    (disjoint : runs.Pairwise Disjoint) {run : Nat × List F} (member : run ∈ runs) {index : Nat}
    (within : index < run.2.length) (inside : run.1 + index < buffer.size) :
    (writeAll buffer runs)[run.1 + index]? = run.2[index]? := by
  induction runs generalizing buffer with
  | nil => cases member
  | cons first rest ih =>
      rw [List.pairwise_cons] at disjoint
      rw [writeAll_cons]
      cases member with
      | head =>
          have untouched : ¬ Covers rest (run.1 + index) := by
            rintro ⟨other, isOther, covered⟩
            exact disjoint.1 other isOther _ ⟨Nat.le_add_right _ _, Nat.add_lt_add_left within _⟩
              covered
          rw [getElem?_writeAll_of_not_covers untouched, getElem?_write_add within inside]
      | tail _ member => exact ih disjoint.2 member (by rw [size_write]; exact inside)

def Clear (left right : Nat × List F) : Prop :=
  left.1 + left.2.length ≤ right.1 ∨ right.1 + right.2.length ≤ left.1

theorem getElem?_writeAll_of_clear {runs : List (Nat × List F)} (clear : runs.Pairwise Clear)
    {run : Nat × List F} (member : run ∈ runs) {index : Nat} (within : index < run.2.length)
    (inside : run.1 + index < buffer.size) :
    (writeAll buffer runs)[run.1 + index]? = run.2[index]? := by
  refine getElem?_writeAll_of_disjoint (clear.imp ?_) member within inside
  intro left right apart offset
  unfold Clear at apart
  omega

theorem scatter_eq_ok {runs : List (Nat × List F)} : scatter buffer runs = .ok other ↔
    (∀ run ∈ runs, run.1 + run.2.length ≤ buffer.size) ∧ writeAll buffer runs = other := by
  rw [scatter, unit_bind_eq_ok, forM_eq_ok, pure_eq_ok]
  exact and_congr_left' (forall₂_congr fun _ _ => require_eq_ok)

theorem scatter_ok {runs : List (Nat × List F)}
    (inside : ∀ run ∈ runs, run.1 + run.2.length ≤ buffer.size) :
    scatter buffer runs = .ok (writeAll buffer runs) :=
  scatter_eq_ok.mpr ⟨inside, rfl⟩

theorem length_readRun {run : List F} (success : readRun buffer start width = .ok run) :
    run.length = width := by
  unfold readRun at success
  split at success
  · cases success
    simp
    omega
  · cases success

theorem read_eq_error {offset : Nat} (outside : buffer.size ≤ offset) :
    read buffer offset = .error (.indexOutOfRange offset buffer.size) := by
  rw [read, Array.getElem?_eq_none outside]
  rfl

variable [Arithmetic F]

def number (buffer : Array F) (offset : Nat) : F := (buffer[offset]?).getD Arithmetic.zero

theorem read_eq_ok {offset : Nat} (inside : offset < buffer.size) :
    read buffer offset = .ok (number buffer offset) := by
  rw [read, number, Array.getElem?_eq_getElem inside]
  rfl

theorem readRun_eq_ok (inside : start + width ≤ buffer.size) :
    readRun buffer start width =
      .ok ((List.range width).map fun index => number buffer (start + index)) := by
  rw [readRun, if_pos inside]
  congr 1
  apply List.ext_getElem?
  intro index
  rw [Array.getElem?_toList, List.getElem?_map]
  by_cases within : index < width
  · have bound : start + index < buffer.size := by omega
    rw [Array.getElem?_extract, if_pos (by omega), List.getElem?_range within, Option.map_some,
      number, Array.getElem?_eq_getElem bound]
    rfl
  · rw [Array.getElem?_eq_none (by simp; omega),
      List.getElem?_eq_none (by simpa using Nat.le_of_not_lt within)]
    rfl

def sumAt (buffer : Array F) (starts : List Nat) (index : Nat) : F :=
  starts.foldl (fun sum start => Arithmetic.add sum (number buffer (start + index)))
    Arithmetic.zero

theorem sumAt_congr {starts : List Nat} {index : Nat}
    (same : ∀ start ∈ starts, buffer[start + index]? = other[start + index]?) :
    sumAt buffer starts index = sumAt other starts index := by
  apply List.foldl_ext
  intro sum start member
  rw [number, number, same start member]

theorem sumAt_map_add (buffer : Array F) (starts : List Nat) (distance index : Nat) :
    sumAt buffer (starts.map (· + distance)) index = sumAt buffer starts (distance + index) := by
  rw [sumAt, sumAt, List.foldl_map]
  simp only [Nat.add_assoc]

theorem foldlM_readRun {starts : List Nat}
    (inside : ∀ start ∈ starts, start + width ≤ buffer.size) :
    starts.foldlM (fun sums start => do
        return List.zipWith Arithmetic.add sums (← readRun buffer start width))
      (List.replicate width Arithmetic.zero) =
      (.ok ((List.range width).map (sumAt buffer starts)) : Except Fault (List F)) := by
  have continued (sums : Nat → F) :
      starts.foldlM (fun sums start => do
          return List.zipWith Arithmetic.add sums (← readRun buffer start width))
        ((List.range width).map sums) =
        (.ok ((List.range width).map fun index => starts.foldl
          (fun sum start => Arithmetic.add sum (number buffer (start + index))) (sums index)) :
          Except Fault (List F)) := by
    induction starts generalizing sums with
    | nil => rfl
    | cons start rest ih =>
        rw [List.foldlM_cons, readRun_eq_ok (inside start List.mem_cons_self)]
        simp only [ok_bind]
        have added : List.zipWith Arithmetic.add ((List.range width).map sums)
            ((List.range width).map fun index => number buffer (start + index)) =
            (List.range width).map fun index =>
              Arithmetic.add (sums index) (number buffer (start + index)) := by
          rw [List.zipWith_map, List.zipWith_self]
        rw [added]
        exact ih (fun other member => inside other (List.mem_cons_of_mem _ member)) _
  have zeros : List.replicate width (Arithmetic.zero : F) =
      (List.range width).map fun _ => Arithmetic.zero := by
    rw [List.map_const', List.length_range]
  rw [zeros]
  exact continued _

end CircuitPlan.Buffer
