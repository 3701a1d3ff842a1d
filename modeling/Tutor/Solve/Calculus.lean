import Tutor.Settings
import Tutor.Solution
import Tutor.Wording.Clause

/-!
Derivatives and limits.
-/

set_option autoImplicit false
set_option relaxedAutoImplicit false

namespace Tutor.Solve

open Text (contains lowerChars)

inductive CalculusTask where
  | derivative
  | limit
  | unrecognized
  deriving DecidableEq, Repr

/-- What a text asks for: a derivative if any word or sign for one occurs, otherwise a limit if that
word occurs. -/
def CalculusTask.ofText (text : String) : CalculusTask :=
  let lowered := lowerChars text.toList
  if ["derivative", "differentiate", "dx/dx", "d/dx"].any (contains lowered) then .derivative
  else if contains lowered "limit" then .limit
  else .unrecognized

/-- The derivative of the function in a text, by the variable that the text names or else by the
unknown of the settings. -/
def derivative (text : String) (settings : SolverSettings) : Outcome := do
  let named := (Wording.respectClause? (lowerChars text.toList)).map String.singleton
  let unknown := named.getD settings.unknown
  let function ← orRefuse (Expr.read (Wording.formula text))
  return {
    steps := ["Identified function", "Applied differentiation"]
    answer := .value (function.derivative unknown)
    certificate := some (.derivative function unknown) }

/-- The limit of the function in a text, at the point that the text names; where it names none, the
unknown of the settings approaches zero. -/
def limit (text : String) (settings : SolverSettings) : Outcome := do
  let lowered := lowerChars text.toList
  let (body, unknown, point, shown) ← match Wording.limitClause? lowered with
    | some clause =>
      match Wording.readPoint? clause.target with
      | some point =>
        pure (clause.body, String.singleton clause.unknown, point, String.ofList clause.target)
      | none => .error (Refusal.ofFailure (.invalidTarget (String.ofList clause.target)))
    | none => pure (lowered, settings.unknown, (0 : Rat), "0")
  let function ← orRefuse (Expr.read (Wording.formula (String.ofList body)))
  let value ← orRefuse (function.limit unknown point settings.depth)
  return {
    steps := ["Evaluated limit at " ++ unknown ++ " -> " ++ shown]
    answer := .limit value
    certificate := some (.limit function unknown point) }

def calculus (text : String) (settings : SolverSettings) : Outcome :=
  match CalculusTask.ofText text with
  | .derivative => derivative text settings
  | .limit => limit text settings
  | .unrecognized => .error .unhandled

end Tutor.Solve
