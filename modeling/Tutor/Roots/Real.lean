import Tutor.Number.Binary64
import Tutor.Poly.Division
import Tutor.RationalFunction
import Tutor.Roots.Rational

/-!
Real roots: rational roots are split off one by one, and what is left of degree two is solved in radicals.
What is left of a higher degree is refused, whether it is irreducible or not. The roots are put into order
by the doubles nearest to them.
-/

set_option autoImplicit false
set_option relaxedAutoImplicit false

namespace Tutor

open Number (nearestFloat totalOrderKey splitSquare)

/-- A root, and the double by which it is put into order. -/
structure RealRoot where
  expr : Expr
  approx : Float

namespace RealRoot

def ofRat (q : Rat) : RealRoot := ⟨.const q, nearestFloat q⟩

def ofSurd (center offset : Rat) (radicand : Nat) : RealRoot where
  expr := (Expr.add (.const center) (.mul (.const offset) (Expr.integer radicand).sqrt)).simplifyFully
  approx := nearestFloat center + nearestFloat offset * (nearestFloat radicand).sqrt

/-- The real roots of a polynomial of degree two, smaller one first. -/
def ofQuadratic (p : Poly) : List RealRoot :=
  let a := p.coeff 2
  let b := p.coeff 1
  let discriminant := b * b - 4 * a * p.coeff 0
  if discriminant < 0 then []
  else
    let center := -b / (2 * a)
    let (square, free) := splitSquare (discriminant.num.natAbs * discriminant.den)
    let offset := (mkRat square discriminant.den / (2 * a)).abs
    if free = 1 then [ofRat (center - offset), ofRat (center + offset)]
    else [ofSurd center (-offset) free, ofSurd center offset free]

end RealRoot

namespace Poly

/-- The real roots of a polynomial without repeated roots: rational roots are split off until degree
two is reached. -/
def distinctRoots (p : Poly) : Except Failure (List RealRoot) :=
  if h : p.bound ≤ 3 then
    if p.bound = 3 then .ok (RealRoot.ofQuadratic p)
    else .ok (p.linearRoot?.toList.map RealRoot.ofRat)
  else do
    match ← p.rationalRoot? with
    | none => .error (.noClosedForm (p.bound - 1))
    | some r =>
      have _lower : ((p.divExact? (linear r)).getD 0).bound < p.bound := by
        cases hq : p.divExact? (linear r) with
        | none => simp only [Option.getD_none, bound_zero]; omega
        | some q =>
          exact bound_divExact?_lt (by omega) (one_lt_bound_linear r) hq
      let others ← distinctRoots ((p.divExact? (linear r)).getD 0)
      return RealRoot.ofRat r :: others
termination_by p.bound

def dropRepeats : List Expr → List Expr
  | a :: b :: rest => if a = b then dropRepeats (a :: rest) else a :: dropRepeats (b :: rest)
  | es => es

/-- The real roots of the square-free parts in the order of their doubles; of equal roots next to each other
one is kept. -/
def realRoots (p : Poly) : Except Failure (List Expr) := do
  let roots ← p.squareFree.flatMapM fun (part, _) => part.distinctRoots
  let sorted := roots.mergeSort fun a b => totalOrderKey a.approx ≤ totalOrderKey b.approx
  return dropRepeats (sorted.map RealRoot.expr)

end Poly
/-- Solves `e = 0` for `v` by the roots of the numerator in lowest terms. They are no roots of the
denominator, but `e` itself may have no value there. -/
def Expr.solve (v : String) (e : Expr) : Except Failure (List Expr) :=
  match RationalFunction.ofExpr? v e with
  | none => .error (.notRational e v)
  | some f => f.numer.realRoots

end Tutor
