import Tutor.Poly.Basic
import Tutor.Simplify.Pass

/-!
From expressions to polynomials in a chosen variable, and back.
-/

set_option autoImplicit false
set_option relaxedAutoImplicit false

namespace Tutor

namespace Expr

def signedConst? : Expr → Option Rat
  | .const q => some q
  | .neg a => a.signedConst?.map (- ·)
  | _ => none

def signedInteger? (e : Expr) : Option Int := do
  let q ← e.signedConst?
  if q.den = 1 then some q.num else none

/-- The constant that an expression is after one pass of simplification. -/
def constantValue? (e : Expr) : Option Rat := e.simplify.signedConst?

/-- The size of an integer exponent that is small enough to be worked out: 64 bits. -/
def exponentSize? (k : Int) : Option Nat := if k.natAbs < UInt64.size then some k.natAbs else none

end Expr

namespace Poly

/-- The polynomial in `v` that an expression denotes. Parts without `v` have to be constants, also
divisors, and exponents non-negative integers. -/
def ofExpr? (v : String) (e : Expr) : Option Poly :=
  if e.mentions v = false then e.constantValue?.map Poly.const
  else
    match e with
    | .var _ => some x
    | .add a b => do return (← ofExpr? v a) + (← ofExpr? v b)
    | .sub a b => do return (← ofExpr? v a) - (← ofExpr? v b)
    | .mul a b => do return (← ofExpr? v a) * (← ofExpr? v b)
    | .div a b => do
      let d ← b.constantValue?
      if d = 0 then none else return (← ofExpr? v a).scale (1 / d)
    | .neg a => do return -(← ofExpr? v a)
    | .pow a b => do
      let k ← b.signedInteger?
      if k < 0 then none else return (← ofExpr? v a).power (← Expr.exponentSize? k)
    | _ => none

def variablePower (v : String) (n : Nat) : Expr :=
  if n = 1 then .var v else .pow (.var v) (.integer n)

/-- A term as an expression: the constant stands alone, and a coefficient one is not written. -/
def termExpr (v : String) (t : Term) : Expr :=
  if t.1 = 0 then .const t.2
  else if t.2 = 1 then variablePower v t.1
  else .mul (.const t.2) (variablePower v t.1)

/-- A polynomial as an expression in `v`: the sum of its terms, highest power first. -/
def toExpr (v : String) (p : Poly) : Expr :=
  (Expr.joinLeft? .add (p.terms.map (termExpr v))).getD .zero

end Poly

end Tutor
