import Tutor.RationalMatrix.Determinant
import Tutor.Solution
import Tutor.Wording.Clause

/-!
Determinants of matrices that are written out in the text.
-/

set_option autoImplicit false
set_option relaxedAutoImplicit false

namespace Tutor.Solve

open Text (contains lowerChars)

/-- The matrix that is meant where a text has no rows. -/
def standardRows : List (List Int) := [[1, 2], [3, 4]]

def rowsOf (text : String) : Except Failure (List (List Int)) :=
  (Wording.matrixRows text.toList).mapError fun (entry, cause) =>
    .notAnInteger (String.ofList entry) cause

def determinant (text : String) : Outcome := do
  if contains (lowerChars text.toList) "determinant" then
    let found ← orRefuse (rowsOf text)
    let rows := if found.isEmpty then standardRows else found
    let matrix ← orRefuse (RationalMatrix.ofRows rows)
    let value ← orRefuse matrix.determinant
    return {
      steps := ["Parsed matrix", "Computed determinant"]
      answer := .value (.const value)
      certificate := some (.determinant rows) }
  else .error .unhandled

end Tutor.Solve
