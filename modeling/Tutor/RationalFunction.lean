import Tutor.Poly.Division
import Tutor.Poly.OfExpr

/-!
Quotients of polynomials in lowest terms: numerator and denominator have no common factor, and the
denominator has leading coefficient one.
-/

set_option autoImplicit false
set_option relaxedAutoImplicit false

namespace Tutor

structure RationalFunction where
  numer : Poly
  denom : Poly
  deriving DecidableEq

namespace RationalFunction

def ofPoly (p : Poly) : RationalFunction := ⟨p, 1⟩

/-- The quotient of two polynomials in lowest terms; none if the divisor is zero. -/
def ofQuotient? (numer denom : Poly) : Option RationalFunction :=
  if denom.isZero then none
  else if numer.isZero then some ⟨numer, 1⟩
  else do
    let g := Poly.gcd numer denom
    let n ← numer.divExact? g
    let d ← denom.divExact? g
    return ⟨n.scale (1 / d.leading), d.scale (1 / d.leading)⟩

def add? (f g : RationalFunction) : Option RationalFunction :=
  ofQuotient? (f.numer * g.denom + g.numer * f.denom) (f.denom * g.denom)

def mul? (f g : RationalFunction) : Option RationalFunction :=
  ofQuotient? (f.numer * g.numer) (f.denom * g.denom)

def neg (f : RationalFunction) : RationalFunction := ⟨-f.numer, f.denom⟩

def inverse? (f : RationalFunction) : Option RationalFunction := ofQuotient? f.denom f.numer

def power? (f : RationalFunction) (k : Int) : Option RationalFunction := do
  let n ← Expr.exponentSize? k
  let raised ← ofQuotient? (f.numer.power n) (f.denom.power n)
  if k < 0 then raised.inverse? else some raised

/-- The rational function of `v` that an expression denotes. Parts without `v` have to be constants,
and exponents integers. -/
def ofExpr? (v : String) (e : Expr) : Option RationalFunction :=
  if e.mentions v = false then e.constantValue?.map fun c => ofPoly (.const c)
  else
    match e with
    | .var _ => some (ofPoly .x)
    | .add a b => do (← ofExpr? v a).add? (← ofExpr? v b)
    | .sub a b => do (← ofExpr? v a).add? (← ofExpr? v b).neg
    | .mul a b => do (← ofExpr? v a).mul? (← ofExpr? v b)
    | .div a b => do (← ofExpr? v a).mul? (← (← ofExpr? v b).inverse?)
    | .neg a => do return (← ofExpr? v a).neg
    | .pow a b => do
      let k ← b.signedInteger?
      (← ofExpr? v a).power? k
    | _ => none

end RationalFunction

end Tutor
