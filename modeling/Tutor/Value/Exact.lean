import Tutor.Expr.Basic
import Tutor.Number.Root

/-!
The exact rational value of an expression without variables, where it can be told with certainty:
arithmetic, integer powers, roots of perfect squares, and the functions at the points where their
value is rational for sure. Everything else, division by zero included, has no exact value.
-/

set_option autoImplicit false
set_option relaxedAutoImplicit false

namespace Tutor.Expr

open Number (exactRationalSqrt?)

/-- The base of which a rational power is an integer power: the base itself, or its exact root. -/
def powerBase? (base : Rat) (den : Nat) : Option Rat :=
  if den = 1 then some base
  else if den = 2 then exactRationalSqrt? base
  else none

/-- A rational power; the numerator of its exponent has at most 31 bits. Zero has no negative
power. -/
def exactPower? (base e : Rat) : Option Rat := do
  let root ← powerBase? base e.den
  if 0x80000000 ≤ e.num.natAbs then none
  else if 0 ≤ e.num then some (root ^ e.num.natAbs)
  else if root = 0 then none
  else some (root⁻¹ ^ e.num.natAbs)

def exactQuotient? (a b : Rat) : Option Rat := if b = 0 then none else some (a / b)

def exactValue? : Expr → Option Rat
  | .const q => some q
  | .var _ => none
  | .add a b => do return (← exactValue? a) + (← exactValue? b)
  | .sub a b => do return (← exactValue? a) - (← exactValue? b)
  | .mul a b => do return (← exactValue? a) * (← exactValue? b)
  | .div a b => do exactQuotient? (← exactValue? a) (← exactValue? b)
  | .pow a b => do exactPower? (← exactValue? a) (← exactValue? b)
  | .neg a => do return -(← exactValue? a)
  | .sin a | .tan a => do if (← exactValue? a) = 0 then some 0 else none
  | .cos a | .exp a => do if (← exactValue? a) = 0 then some 1 else none
  | .log a => do if (← exactValue? a) = 1 then some 0 else none

end Tutor.Expr
