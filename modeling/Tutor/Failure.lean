import Tutor.Expr.Diagnosis
import Tutor.Expr.Printer

/-!
What can go wrong when a problem is read or worked out, and how it is worded.
-/

set_option autoImplicit false
set_option relaxedAutoImplicit false

namespace Tutor

open Number (naturalText integerText fractionText)

inductive Failure where
  | notAnExpression (text : String) (cause : Expr.ParseFailure)
  | notAnInteger (text : String) (cause : Number.LiteralError)
  /-- The point of a limit is written in digits that are not decimal digits of ASCII. -/
  | invalidTarget (text : String)
  /-- An equation is not one between rational functions of its unknown. -/
  | notRational (equation : Expr) (unknown : String)
  /-- After its rational roots a factor of this degree is left. -/
  | noClosedForm (degree : Nat)
  /-- A coefficient has too many possible divisors to try. -/
  | coefficientTooLarge (coefficient : Int)
  | limitUnknown (function : Expr) (unknown : String) (point : Rat)
  /-- A matrix row differs in length from the first one. -/
  | raggedRows (expected found : Nat)
  | emptyMatrix
  | notSquare (rows cols : Nat)
  | emptyProblem
  deriving DecidableEq

private def unsupported (what : String) : String := "unsupported operation: " ++ what

def Failure.message : Failure → String
  | .notAnExpression text cause => cause.message text
  | .notAnInteger text cause => "cannot parse expression `" ++ text ++ "`: " ++ cause.message
  | .invalidTarget text => "cannot parse expression `" ++ text ++ "`: invalid limit target"
  | .notRational equation unknown =>
    unsupported (equation.text ++ " is not a polynomial equation in " ++ unknown)
  | .noClosedForm degree =>
    unsupported ("no closed form for the roots of an irreducible degree " ++ naturalText degree ++
      " factor")
  | .coefficientTooLarge coefficient =>
    unsupported ("coefficient " ++ integerText coefficient ++
      " is too large to search for rational roots")
  | .limitUnknown function v point =>
    unsupported ("cannot evaluate limit of " ++ function.text ++ " as " ++ v ++ " -> " ++
      fractionText point)
  | .raggedRows expected found =>
    "matrix rows have mismatched lengths (expected " ++ naturalText expected ++ ", found " ++
      naturalText found ++ ")"
  | .emptyMatrix => "matrix has no rows"
  | .notSquare rows cols =>
    "determinant requires a square matrix, got " ++ naturalText rows ++ "x" ++ naturalText cols
  | .emptyProblem => "problem text is empty"

theorem bind_eq_ok {ε α β : Type} {work : Except ε α} {next : α → Except ε β} {b : β} :
    work >>= next = .ok b ↔ ∃ a, work = .ok a ∧ next a = .ok b := by
  cases work with
  | error failure => simp [bind, Except.bind]
  | ok a => simp [bind, Except.bind]

theorem bind_eq_error {ε α β : Type} {work : Except ε α} {next : α → Except ε β} {e : ε} :
    work >>= next = .error e ↔ work = .error e ∨ ∃ a, work = .ok a ∧ next a = .error e := by
  cases work with
  | error failure => simp [bind, Except.bind]
  | ok a => simp [bind, Except.bind]

def Expr.read (text : String) : Except Failure Expr :=
  (Expr.parse text).mapError (.notAnExpression text)

end Tutor
