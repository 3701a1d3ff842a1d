import Tutor.Main
import Tutor.Proofs.Calculus.Derivative
import Tutor.Proofs.Expr.Order
import Tutor.Proofs.Number.Square
import Tutor.Proofs.Poly.Division
import Tutor.Proofs.Poly.SquareFree
import Tutor.Proofs.RationalMatrix.Determinant
import Tutor.Proofs.Roots.Rational
import Tutor.Proofs.Roots.Real
import Tutor.Proofs.Simplify.Pass
import Tutor.Proofs.Simplify.Power
import Tutor.Proofs.Simplify.Product
import Tutor.Proofs.Value.Real
import Tutor.Proofs.Value.Exact
import Tutor.Proofs.RationalFunction.Derivative
import Tutor.Proofs.Roots.Equation
import Tutor.Proofs.Calculus.Limit
import Tutor.Proofs.Calculus.LHopital
import Tutor.Proofs.Expr.Grammar
import Tutor.Proofs.Value.Equivalence
import Tutor.Proofs.Expr.RoundTrip
import Tutor.Proofs.Calculus.Displayed
import Tutor.Proofs.Solve.Sentence
import Tutor.Proofs.Verify.Exact
import Tutor.Proofs.Feedback.Log
import Tutor.Proofs.Problem.Request
import Tutor.Proofs.Report
import Tutor.Proofs.Roots.Order
import Tutor.Proofs.Poly.Divisibility
import Tutor.Proofs.Roots.Refusal
import Tutor.Proofs.Poly.LongDivision
import Tutor.Proofs.Poly.Representation
import Tutor.Proofs.RationalFunction.Polynomial
import Tutor.Proofs.Poly.ToExpr
import Tutor.Proofs.RationalMatrix.Condensation
import Tutor.Proofs.Calculus.Pole
import Tutor.Proofs.Calculus.Depth
import Tutor.Proofs.Simplify.Arrangement
import Tutor.Proofs.Simplify.Constant
import Tutor.Proofs.Verify.Roots
import Tutor.Proofs.Expr.Composition
import Tutor.Proofs.Expr.Application
import Tutor.Proofs.Solve.Derivative
import Tutor.Proofs.Solve.Determinant
import Tutor.Proofs.Solve.Counting
import Tutor.Proofs.Poly.Multiplicity
import Tutor.Proofs.Number.SquareFactor
