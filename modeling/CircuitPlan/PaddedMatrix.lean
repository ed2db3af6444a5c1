import CircuitPlan.Fault

/-!
# Index matrices

Dense row-major matrices of offsets whose rows are filled up on the right with a padding entry.
Every offset space ends below the padding entry, so that padding is never taken for an offset.
-/

namespace CircuitPlan

/-- The entry that fills up a row, the largest 32-bit number. -/
def padding : Nat := 4294967295

structure PaddedMatrix where
  rows : Nat
  cols : Nat
  data : List Nat
deriving DecidableEq

namespace PaddedMatrix

def empty : PaddedMatrix := ⟨0, 0, []⟩

def padRow (cols : Nat) (row : List Nat) : List Nat :=
  row ++ List.replicate (cols - row.length) padding

/-- A row fits when it is short enough and free of padding; its length is looked at first. -/
def checkRow (cols : Nat) (row : List Nat) : Except Fault Unit := do
  require (row.length ≤ cols) (.rowTooLong row.length cols)
  require (padding ∉ row) .paddingInRow

def ofRows (rows : List (List Nat)) (cols : Nat) : Except Fault PaddedMatrix := do
  rows.forM (checkRow cols)
  return ⟨rows.length, cols, rows.flatMap (padRow cols)⟩

def row? (matrix : PaddedMatrix) (index : Nat) : Option (List Nat) :=
  if (index + 1) * matrix.cols ≤ matrix.data.length then
    some ((matrix.data.drop (index * matrix.cols)).take matrix.cols)
  else none

def readRow (matrix : PaddedMatrix) (index : Nat) : Except Fault (List Nat) :=
  (matrix.row? index).elim
    (.error (.stopOutOfRange ((index + 1) * matrix.cols) matrix.data.length)) .ok

def row (matrix : PaddedMatrix) (index : Nat) : List Nat := (matrix.row? index).getD []

def valid (matrix : PaddedMatrix) (index : Nat) : List Nat :=
  (matrix.row index).takeWhile (· != padding)

def rowList (matrix : PaddedMatrix) : List (List Nat) := (List.range matrix.rows).map matrix.row

def numPadded (matrix : PaddedMatrix) : Nat := matrix.data.count padding

end PaddedMatrix
end CircuitPlan
