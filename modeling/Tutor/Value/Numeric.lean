import Tutor.Expr.Basic
import Tutor.Number.Binary64

/-!
The floating-point value of an expression under bindings of its variables. A value that is not finite
at any node, or a variable without binding, leaves the expression without value.
-/

set_option autoImplicit false
set_option relaxedAutoImplicit false

namespace Tutor.Expr

open Number (nearestFloat)

def finite? (x : Float) : Option Float := if x.isFinite then some x else none

/-- The floating-point value of an expression; of two bindings of a name the first one counts. -/
def numericValue? (bindings : List (String × Float)) : Expr → Option Float
  | .const q => finite? (nearestFloat q)
  | .var name => do finite? (← bindings.lookup name)
  | .add a b => do finite? ((← numericValue? bindings a) + (← numericValue? bindings b))
  | .sub a b => do finite? ((← numericValue? bindings a) - (← numericValue? bindings b))
  | .mul a b => do finite? ((← numericValue? bindings a) * (← numericValue? bindings b))
  | .div a b => do finite? ((← numericValue? bindings a) / (← numericValue? bindings b))
  | .pow a b => do finite? ((← numericValue? bindings a) ^ (← numericValue? bindings b))
  | .neg a => do finite? (-(← numericValue? bindings a))
  | .sin a => do finite? (← numericValue? bindings a).sin
  | .cos a => do finite? (← numericValue? bindings a).cos
  | .tan a => do finite? (← numericValue? bindings a).tan
  | .exp a => do finite? (← numericValue? bindings a).exp
  | .log a => do finite? (← numericValue? bindings a).log

end Tutor.Expr
