import Tutor.Proofs.Poly.Overflow
import Tutor.RationalFunction

/-!
Sums of powers that do not wrap around in arithmetic with quotients. A sum multiplies every numerator by
the other denominator and the denominators by each other, a product numerator by numerator and denominator
by denominator, and a power is one of both. Lowest terms are found without products of a higher degree, and
so is a limit, but for the last square of a power.
-/

set_option autoImplicit false
set_option relaxedAutoImplicit false

namespace Tutor.RationalFunction

def sumFits (f g : RationalFunction) : Bool :=
  f.numer.productFits g.denom && g.numer.productFits f.denom && f.denom.productFits g.denom

def productFits (f g : RationalFunction) : Bool :=
  f.numer.productFits g.numer && f.denom.productFits g.denom

def powerFits (f : RationalFunction) (k : Int) : Bool :=
  (Expr.exponentSize? k).all fun n => f.numer.powerFits n && f.denom.powerFits n

def quotientRuleFits (f : RationalFunction) : Bool :=
  f.numer.derivative.productFits f.denom && f.numer.productFits f.denom.derivative &&
    f.denom.productFits f.denom

/-- No sum of powers wraps around in the power of the distance that is divided out at a pole. -/
def limitFits (f : RationalFunction) (point : Rat) : Bool :=
  f.denom.eval point ≠ 0 || (Poly.linear point).powerFits (f.denom.multiplicity point)

/-- No sum of powers wraps around while an expression is brought to a rational function, as far as that
gets. -/
def ofExprFits (v : String) (e : Expr) : Bool :=
  if e.mentions v = false then true
  else
    match e with
    | .add a b =>
      ofExprFits v a && (ofExpr? v a).all fun f =>
        ofExprFits v b && (ofExpr? v b).all fun g => f.sumFits g
    | .sub a b =>
      ofExprFits v a && (ofExpr? v a).all fun f =>
        ofExprFits v b && (ofExpr? v b).all fun g => f.sumFits g.neg
    | .mul a b =>
      ofExprFits v a && (ofExpr? v a).all fun f =>
        ofExprFits v b && (ofExpr? v b).all fun g => f.productFits g
    | .div a b =>
      ofExprFits v a && (ofExpr? v a).all fun f =>
        ofExprFits v b && (ofExpr? v b).all fun g => g.inverse?.all fun i => f.productFits i
    | .neg a => ofExprFits v a
    | .pow a b =>
      b.signedInteger?.all fun k => ofExprFits v a && (ofExpr? v a).all fun f => f.powerFits k
    | _ => true

/-- The exponents of nested powers are multiplied and wrap around, although each of them is small. -/
example :
    let e : Expr := .pow (.pow (.var "x") (.const (2 ^ 60))) (.const 16)
    ofExpr? "x" e = some (ofPoly 1) ∧ ofExprFits "x" e = false := by decide +kernel

end Tutor.RationalFunction
