import Tutor.Failure
import Tutor.Number.Factor
import Tutor.Poly.Basic

/-!
Rational roots by trying all candidates: in lowest terms the numerator of a root divides the constant
coefficient and its denominator the leading one, once the coefficients are integers.
-/

set_option autoImplicit false
set_option relaxedAutoImplicit false

namespace Tutor

namespace Poly

open Number (divisors?)

def commonDenominator (p : Poly) : Nat := p.terms.foldr (fun t m => Nat.lcm t.2.den m) 1

def scaledCoeff (p : Poly) (c : Rat) : Int := (c * (p.commonDenominator : Rat)).num

def coefficientDivisors (n : Int) : Except Failure (List Nat) :=
  match divisors? n.natAbs with
  | some ds => .ok ds
  | none => .error (.coefficientTooLarge n)

def candidates (numerators denominators : List Nat) : List Rat :=
  numerators.flatMap fun (n : Nat) => denominators.flatMap fun d => [mkRat n d, -mkRat n d]

def least? : List Rat → Option Rat
  | [] => none
  | q :: qs => some (qs.foldl (fun m q => if q < m then q else m) q)

/-- The least rational root; zero is preferred where it is a root. Fails if the constant or the
leading coefficient is too large to be divided. The coefficients are taken from the terms: the array with a
cell for every power up to the degree, and the memory that it takes, are left out. -/
def rationalRoot? (p : Poly) : Except Failure (Option Rat) :=
  let constant := p.scaledCoeff (p.coeff 0)
  let leading := p.scaledCoeff p.leading
  if constant = 0 then .ok (some 0)
  else do
    let numerators ← coefficientDivisors constant
    let denominators ← coefficientDivisors leading
    return least? ((candidates numerators denominators).filter fun q => p.eval q = 0)

end Poly

end Tutor
