import Tutor.Roots.Real
import Tutor.Settings
import Tutor.Solution
import Tutor.Wording.Formula

/-!
Equations in one unknown.
-/

set_option autoImplicit false
set_option relaxedAutoImplicit false

namespace Tutor.Solve

def equation (text : String) (settings : SolverSettings) : Outcome := do
  let zero ← orRefuse (Expr.read (Wording.formula text))
  let roots ← orRefuse (zero.solve settings.unknown)
  let note := if roots.isEmpty then ["No real roots"] else []
  return {
    steps := ["Converted equation to symbolic form", "Solved for " ++ settings.unknown] ++ note
    answer := .roots roots
    certificate := some (.roots zero settings.unknown) }

end Tutor.Solve
