import Tutor.Problem
import Tutor.Solve.Calculus
import Tutor.Solve.Counting
import Tutor.Solve.Determinant
import Tutor.Solve.Equation

/-!
Solving a problem by the strategy chosen for it.
-/

set_option autoImplicit false
set_option relaxedAutoImplicit false

namespace Tutor

def Strategy.solve (strategy : Strategy) (text : String) (settings : SolverSettings) : Outcome :=
  match strategy with
  | .symbolicSolve => Solve.equation text settings
  | .differentiateOrLimit => Solve.calculus text settings
  | .countingProbability => Solve.probability text
  | .matrixOperations => Solve.determinant text
  | .general => .error .unhandled

def Problem.solve (problem : Problem) (settings : SolverSettings) : Outcome :=
  problem.topic.strategy.solve problem.text settings

end Tutor
