import Tutor.RationalMatrix.Basic

/-!
Three ways to a determinant: elimination with the largest pivot, elimination without fractions, and
expansion along the first row. Each works on the rows of a square matrix and ends with smaller ones.
-/

set_option autoImplicit false
set_option relaxedAutoImplicit false

namespace Tutor.RationalMatrix

def head (row : List Rat) : Rat := row.head?.getD 0

/-- The place of the row whose first entry is largest in magnitude, the first of equals. There is none
if all first entries are zero. -/
def largestPivot? (rows : List (List Rat)) : Option Nat :=
  let (found, _) := rows.zipIdx.foldl (fun (best : Option Nat × Rat) (row, i) =>
    if best.2 < (head row).abs then (some i, (head row).abs) else best) (none, 0)
  found

def firstPivot? (rows : List (List Rat)) : Option Nat := rows.findIdx? fun row => head row ≠ 0

/-- Exchanges the first row with the one at a place: the row that comes first, the others, and the sign
that the determinant takes. -/
def exchange (first : List Rat) (others : List (List Rat)) : Nat → List Rat × List (List Rat) × Rat
  | 0 => (first, others, 1)
  | i + 1 =>
    match others[i]? with
    | some row => (row, others.set i first, -1)
    | none => (first, others, 1)

/-- Subtracts from a row the multiple of the pivot row that makes its first entry zero, and drops that
entry. -/
def eliminate (pivot row : List Rat) : List Rat :=
  List.zipWith (fun a b => a - head row / head pivot * b) row.tail pivot.tail

def eliminationDeterminant : Nat → List (List Rat) → Rat
  | n + 1, first :: others =>
    match largestPivot? (first :: others) with
    | none => 0
    | some i =>
      let (pivot, rest, sign) := exchange first others i
      sign * head pivot * eliminationDeterminant n (rest.map (eliminate pivot))
  | _, _ => 1

/-- Replaces a row by its two-by-two minors with the pivot row, divided by the pivot before. -/
def condense (previous : Rat) (pivot row : List Rat) : List Rat :=
  List.zipWith (fun a b => (a * head pivot - head row * b) / previous) row.tail pivot.tail

/-- A step of elimination without fractions: the place of the row that comes first, the sign that its
exchange brings, its first entry, and the rows that are left. -/
structure CondensationStep where
  place : Nat
  sign : Rat
  pivot : Rat
  rows : List (List Rat)

/-- The step on some rows, given the pivot of the step before. There is none if all first entries are
zero. -/
def condensationStep? (previous : Rat) : List (List Rat) → Option CondensationStep
  | [] => none
  | first :: others =>
    (firstPivot? (first :: others)).map fun i =>
      let (pivot, rest, sign) := exchange first others i
      { place := i, sign := sign, pivot := head pivot, rows := rest.map (condense previous pivot) }

/-- The determinant of `n` rows without fractions, given the pivot of the step before. -/
def condensedDeterminant (previous : Rat) : Nat → List (List Rat) → Rat
  | n + 2, rows =>
    match condensationStep? previous rows with
    | none => 0
    | some step => step.sign * condensedDeterminant step.pivot (n + 1) step.rows
  | _, rows => head (rows.head?.getD [])

def alternatingSum : List Rat → Rat
  | [] => 0
  | q :: qs => q - alternatingSum qs

/-- The determinant by expansion along the first row: every entry times the determinant of the other
rows without its column. -/
def expansionDeterminant : List (List Rat) → Rat
  | [] => 1
  | row :: rest =>
    alternatingSum (row.mapIdx fun j a =>
      if a = 0 then 0 else a * expansionDeterminant (rest.map (·.eraseIdx j)))
termination_by rows => rows.length

def onSquare (m : RationalMatrix) (way : Nat → List (List Rat) → Rat) : Except Failure Rat :=
  if m.rows = m.cols then .ok (way m.rows m.entries) else .error (.notSquare m.rows m.cols)

def determinant (m : RationalMatrix) : Except Failure Rat := m.onSquare eliminationDeterminant

/-- The determinant by elimination without fractions: integer rows stay integer rows. -/
def bareissDeterminant (m : RationalMatrix) : Except Failure Rat := m.onSquare (condensedDeterminant 1)

def cofactorDeterminant (m : RationalMatrix) : Except Failure Rat :=
  m.onSquare fun _ rows => expansionDeterminant rows

example : eliminationDeterminant 3 [[0, 1, 2], [3, 0, 5], [7, 8, 0]] = 83 := by decide +kernel
example : condensedDeterminant 1 3 [[0, 1, 2], [3, 0, 5], [7, 8, 0]] = 83 := by decide +kernel
example : expansionDeterminant [[0, 1, 2], [3, 0, 5], [7, 8, 0]] = 83 := by decide +kernel

end Tutor.RationalMatrix
