import Mathlib.Algebra.GroupWithZero.Nat
import CircuitPlan.PaddedMatrix
import CircuitPlan.Proofs.Checked

namespace CircuitPlan.PaddedMatrix

variable {rows others : List (List Nat)} {cols otherCols index : Nat} {matrix : PaddedMatrix}
  {row : List Nat} {fault : Fault}

inductive Misfit (cols : Nat) (row : List Nat) : Fault → Prop
  | tooLong : cols < row.length → Misfit cols row (.rowTooLong row.length cols)
  | padded : row.length ≤ cols → padding ∈ row → Misfit cols row .paddingInRow

theorem checkRow_eq_ok : checkRow cols row = .ok () ↔ row.length ≤ cols ∧ padding ∉ row := by
  rw [checkRow, unit_bind_eq_ok, require_eq_ok, require_eq_ok]

theorem checkRow_eq_error : checkRow cols row = .error fault ↔ Misfit cols row fault := by
  rw [checkRow, unit_bind_eq_error, require_eq_error, require_eq_ok, require_eq_error]
  constructor
  · rintro (⟨long, rfl⟩ | ⟨short, padded, rfl⟩)
    · exact .tooLong (Nat.lt_of_not_le long)
    · exact .padded short (Decidable.not_not.mp padded)
  · rintro (long | ⟨short, padded⟩)
    · exact .inl ⟨Nat.not_le_of_lt long, rfl⟩
    · exact .inr ⟨short, Decidable.not_not.mpr padded, rfl⟩

theorem ofRows_eq_ok : ofRows rows cols = .ok matrix ↔
    (∀ row ∈ rows, row.length ≤ cols ∧ padding ∉ row) ∧
      matrix = ⟨rows.length, cols, rows.flatMap (padRow cols)⟩ := by
  rw [ofRows, unit_bind_eq_ok, forM_eq_ok, pure_eq_ok, eq_comm (a := matrix)]
  simp only [checkRow_eq_ok]

theorem ofRows_eq_error : ofRows rows cols = .error fault ↔
    ∃ (index : Nat) (row : List Nat), rows[index]? = some row ∧ Misfit cols row fault ∧
      ∀ before < index, ∀ earlier, rows[before]? = some earlier →
        earlier.length ≤ cols ∧ padding ∉ earlier := by
  have finished : ¬ (pure ⟨rows.length, cols, rows.flatMap (padRow cols)⟩ :
      Except Fault PaddedMatrix) = .error fault := nofun
  rw [ofRows, unit_bind_eq_error, or_iff_left fun ⟨_, failed⟩ => finished failed,
    forM_eq_error_iff]
  simp only [checkRow_eq_ok, checkRow_eq_error]

theorem exists_ofRows (fits : ∀ row ∈ rows, row.length ≤ cols ∧ padding ∉ row) :
    ∃ matrix, ofRows rows cols = .ok matrix :=
  ⟨_, ofRows_eq_ok.mpr ⟨fits, rfl⟩⟩

theorem length_padRow (short : row.length ≤ cols) : (padRow cols row).length = cols := by
  rw [padRow, List.length_append, List.length_replicate, Nat.add_sub_cancel' short]

theorem mem_padRow {entry : Nat} :
    entry ∈ padRow cols row ↔ entry ∈ row ∨ entry = padding ∧ row.length < cols := by
  rw [padRow, List.mem_append, List.mem_replicate, and_comm (b := entry = padding),
    Nat.sub_ne_zero_iff_lt]

theorem takeWhile_padRow (free : padding ∉ row) :
    (padRow cols row).takeWhile (· != padding) = row := by
  rw [padRow, List.takeWhile_append_of_pos]
  · cases cols - row.length with
    | zero => simp
    | succ count => simp [List.replicate_succ]
  · intro entry member
    simpa using ne_of_mem_of_not_mem member free

theorem filter_padRow (free : padding ∉ row) :
    (padRow cols row).filter (· != padding) = row := by
  rw [padRow, List.filter_append, List.filter_replicate_of_neg (by simp), List.append_nil,
    List.filter_eq_self]
  intro entry member
  simpa using ne_of_mem_of_not_mem member free

theorem count_padRow (free : padding ∉ row) :
    (padRow cols row).count padding = cols - row.length := by
  rw [padRow, List.count_append, List.count_eq_zero.mpr free, List.count_replicate_self,
    Nat.zero_add]

theorem padRow_eq_padding (short : row.length ≤ cols) (free : padding ∉ row) {column : Nat} :
    (padRow cols row)[column]? = some padding ↔ row.length ≤ column ∧ column < cols := by
  rw [padRow, List.getElem?_append]
  split
  case isTrue inside =>
    refine ⟨fun found => absurd (List.mem_of_getElem? found) free, ?_⟩
    rintro ⟨beyond, -⟩
    exact absurd inside (Nat.not_lt_of_le beyond)
  case isFalse beyond =>
    rw [List.getElem?_replicate]
    split <;> simp <;> omega

theorem zip_padRow {reads : List Nat} (covered : reads.length ≤ row.length) :
    reads.zip (padRow cols row) = reads.zip row := by
  have cut (rest : List Nat) : reads.zip (row ++ rest) = reads.zip (row.take reads.length) := by
    rw [List.zip_eq_zip_take_min, List.length_append, Nat.min_eq_left (by omega), List.take_length,
      List.take_append_of_le_length covered]
  rw [padRow, cut, ← cut [], List.append_nil]

theorem length_flatMap_padRow (short : ∀ row ∈ rows, row.length ≤ cols) :
    (rows.flatMap (padRow cols)).length = rows.length * cols := by
  induction rows with
  | nil => simp
  | cons first rest ih =>
      rw [List.flatMap_cons, List.length_append, length_padRow (short first List.mem_cons_self),
        ih fun row member => short row (List.mem_cons_of_mem _ member), List.length_cons,
        Nat.succ_mul, Nat.add_comm]

theorem take_drop_flatMap_padRow (short : ∀ row ∈ rows, row.length ≤ cols)
    (found : rows[index]? = some row) :
    ((rows.flatMap (padRow cols)).drop (index * cols)).take cols = padRow cols row := by
  induction rows generalizing index with
  | nil => simp at found
  | cons first rest ih =>
      have firstLength := length_padRow (short first List.mem_cons_self)
      rw [List.flatMap_cons]
      cases index with
      | zero =>
          rw [List.getElem?_cons_zero, Option.some.injEq] at found
          subst found
          rw [Nat.zero_mul, List.drop_zero, List.take_left' firstLength]
      | succ index =>
          rw [List.getElem?_cons_succ] at found
          have skip : (index + 1) * cols = (padRow cols first).length + index * cols := by
            rw [firstLength, Nat.succ_mul, Nat.add_comm]
          rw [skip, ← List.drop_drop, List.drop_left]
          exact ih (fun row member => short row (List.mem_cons_of_mem _ member)) found

section Mapped

variable {α : Type} {xs : List α} {x : α} {f : α → List Nat}
  (success : ofRows (xs.map f) cols = .ok matrix)
include success

theorem row_fits (member : x ∈ xs) : (f x).length ≤ cols ∧ padding ∉ f x :=
  (ofRows_eq_ok.mp success).1 _ (List.mem_map_of_mem member)

theorem row?_eq_some (found : xs[index]? = some x) :
    matrix.row? index = some (padRow cols (f x)) := by
  obtain ⟨fits, rfl⟩ := ofRows_eq_ok.mp success
  have short : ∀ row ∈ xs.map f, row.length ≤ cols := fun row member => (fits row member).1
  have listed : (xs.map f)[index]? = some (f x) := by
    rw [List.getElem?_map, found, Option.map_some]
  obtain ⟨bound, -⟩ := List.getElem?_eq_some_iff.mp listed
  rw [row?]
  dsimp only
  rw [length_flatMap_padRow short, if_pos (Nat.mul_le_mul_right cols bound),
    take_drop_flatMap_padRow short listed]

theorem readRow_eq (found : xs[index]? = some x) :
    matrix.readRow index = .ok (padRow cols (f x)) := by
  rw [readRow, row?_eq_some success found]
  rfl

theorem row_eq (found : xs[index]? = some x) : matrix.row index = padRow cols (f x) := by
  rw [PaddedMatrix.row, row?_eq_some success found, Option.getD_some]

theorem valid_eq (found : xs[index]? = some x) : matrix.valid index = f x := by
  rw [valid, row_eq success found,
    takeWhile_padRow (row_fits success (List.mem_of_getElem? found)).2]

end Mapped

section Made

variable (success : ofRows rows cols = .ok matrix)
include success

theorem entries_eq : matrix.data.filter (· != padding) = rows.flatten := by
  obtain ⟨fits, rfl⟩ := ofRows_eq_ok.mp success
  dsimp only
  rw [List.filter_flatMap, List.flatten_eq_flatMap]
  apply List.flatMap_congr
  intro row member
  exact filter_padRow (fits row member).2

theorem numPadded_eq : matrix.numPadded = (rows.map fun row => cols - row.length).sum := by
  obtain ⟨fits, rfl⟩ := ofRows_eq_ok.mp success
  rw [numPadded, List.count_flatMap]
  congr 1
  apply List.map_congr_left
  intro row member
  exact count_padRow (fits row member).2

theorem rows_eq : matrix.rows = rows.length := by
  rw [(ofRows_eq_ok.mp success).2]

theorem cols_eq : matrix.cols = cols := by
  rw [(ofRows_eq_ok.mp success).2]

theorem length_data : matrix.data.length = matrix.rows * matrix.cols := by
  obtain ⟨fits, rfl⟩ := ofRows_eq_ok.mp success
  exact length_flatMap_padRow fun row member => (fits row member).1

theorem ofRows_map_id : ofRows (rows.map id) cols = .ok matrix := by
  rwa [List.map_id]

theorem rowList_eq : matrix.rowList = rows.map (padRow cols) := by
  rw [rowList, rows_eq success]
  exact map_range_eq fun _ _ => row_eq (ofRows_map_id success)

theorem map_valid_eq : (List.range matrix.rows).map matrix.valid = rows := by
  rw [rows_eq success, map_range_eq fun _ _ => valid_eq (ofRows_map_id success), List.map_id]

theorem ofRows_inj (made : ofRows others otherCols = .ok matrix) :
    others = rows ∧ otherCols = cols :=
  ⟨(map_valid_eq made).symm.trans (map_valid_eq success),
    (cols_eq made).symm.trans (cols_eq success)⟩

end Made

structure ReadsBack (rows : List (List Nat)) (cols : Nat) (matrix : PaddedMatrix) : Prop where
  rows_eq : matrix.rows = rows.length
  cols_eq : matrix.cols = cols
  length_data : matrix.data.length = rows.length * cols
  row : ∀ (index : Nat) (row : List Nat), rows[index]? = some row →
    matrix.row index = row ++ List.replicate (cols - row.length) padding
  readRow : ∀ index < rows.length, matrix.readRow index = .ok (matrix.row index)
  rowList : matrix.rowList = rows.map fun row => row ++ List.replicate (cols - row.length) padding
  valid : ∀ (index : Nat) (row : List Nat), rows[index]? = some row → matrix.valid index = row
  numPadded : matrix.numPadded = (rows.map fun row => cols - row.length).sum
  only : ∀ (others : List (List Nat)) (otherCols : Nat), ofRows others otherCols = .ok matrix →
    others = rows ∧ otherCols = cols

theorem readsBack (success : ofRows rows cols = .ok matrix) : ReadsBack rows cols matrix where
  rows_eq := rows_eq success
  cols_eq := cols_eq success
  length_data := by rw [length_data success, rows_eq success, cols_eq success]
  row _ _ := row_eq (ofRows_map_id success)
  readRow index inside := by
    have found := List.getElem?_eq_getElem inside
    rw [readRow_eq (ofRows_map_id success) found, row_eq (ofRows_map_id success) found]
  rowList := rowList_eq success
  valid _ _ := valid_eq (ofRows_map_id success)
  numPadded := numPadded_eq success
  only _ _ := ofRows_inj success

/-- What comes of padding rows to a width. -/
structure PadsLosslessly (rows : List (List Nat)) (cols : Nat) : Prop where
  refused_iff : (∃ fault, ofRows rows cols = .error fault) ↔
    ∃ row ∈ rows, cols < row.length ∨ padding ∈ row
  fault_iff : ∀ fault, ofRows rows cols = .error fault ↔
    ∃ (index : Nat) (row : List Nat), rows[index]? = some row ∧ Misfit cols row fault ∧
      ∀ before < index, ∀ earlier, rows[before]? = some earlier →
        earlier.length ≤ cols ∧ padding ∉ earlier
  made : (∀ row ∈ rows, row.length ≤ cols ∧ padding ∉ row) →
    ∃ matrix, ofRows rows cols = .ok matrix ∧ ReadsBack rows cols matrix

theorem padsLosslessly (rows : List (List Nat)) (cols : Nat) : PadsLosslessly rows cols where
  refused_iff := by
    have fits : (∀ row ∈ rows, row.length ≤ cols ∧ padding ∉ row) ↔
        ¬ ∃ row ∈ rows, cols < row.length ∨ padding ∈ row := by
      simp only [not_exists, not_and, not_or, Nat.not_lt]
    cases made : ofRows rows cols with
    | ok matrix =>
        have allFit := (ofRows_eq_ok.mp made).1
        exact iff_of_false nofun (fits.mp allFit)
    | error fault =>
        obtain ⟨index, row, found, misfit, -⟩ := ofRows_eq_error.mp made
        have isRow := List.mem_of_getElem? found
        refine iff_of_true ⟨fault, rfl⟩ ⟨row, isRow, ?_⟩
        cases misfit with
        | tooLong long => exact .inl long
        | padded _ member => exact .inr member
  fault_iff _ := ofRows_eq_error
  made fits := by
    obtain ⟨matrix, success⟩ := exists_ofRows fits
    exact ⟨matrix, success, readsBack success⟩

theorem uneven_padsLosslessly : ∃ matrix, ofRows [[1, 2], [], [3, 4, 5]] 3 = .ok matrix ∧
    ReadsBack [[1, 2], [], [3, 4, 5]] 3 matrix :=
  (padsLosslessly [[1, 2], [], [3, 4, 5]] 3).made (by decide)

-- The second row is both too long and padded, and the third is padded.
example : ofRows [[1], [padding, 2, 3], [padding]] 2 = .error (.rowTooLong 3 2) := by decide

end CircuitPlan.PaddedMatrix
