import Tutor.Failure

/-!
Matrices with rational entries, row by row. They are built from integer rows of one length.
-/

set_option autoImplicit false
set_option relaxedAutoImplicit false

namespace Tutor

structure RationalMatrix where
  entries : List (List Rat)
  cols : Nat
  rectangular : ∀ row ∈ entries, row.length = cols
  rows_nonempty : entries ≠ []
  cols_pos : 0 < cols
  deriving DecidableEq

namespace RationalMatrix

open Number (fractionText)

def rows (m : RationalMatrix) : Nat := m.entries.length

/-- The matrix with the given integer rows. The first row that differs in length from the first of all
is reported. -/
def ofRows (rows : List (List Int)) : Except Failure RationalMatrix :=
  match hr : rows with
  | [] => .error .emptyMatrix
  | first :: _ =>
    if hc : first.length = 0 then .error .emptyMatrix
    else
      match hf : rows.find? (fun row => row.length ≠ first.length) with
      | some row => .error (.raggedRows first.length row.length)
      | none => .ok {
          entries := rows.map fun (row : List Int) => row.map fun (n : Int) => (n : Rat)
          cols := first.length
          rectangular := by
            intro row h
            obtain ⟨source, hs, rfl⟩ := List.mem_map.mp h
            simpa using List.find?_eq_none.mp hf source hs
          rows_nonempty := by simp [hr]
          cols_pos := Nat.pos_of_ne_zero hc }

/-- The written form of a row of cells: `[1, 2]`. -/
def rowText (cells : List String) : String := "[" ++ String.intercalate ", " cells ++ "]"

/-- The written form of a matrix: `[[1, 2], [3, 4]]`. -/
def text (m : RationalMatrix) : String := rowText (m.entries.map fun row => rowText (row.map fractionText))

def lastEntry (m : RationalMatrix) : Rat := ((m.entries.getLast?.bind (·.getLast?))).getD 0

end RationalMatrix

end Tutor
