import Tutor.Calculus.Derivative
import Tutor.Failure
import Tutor.RationalFunction
import Tutor.Value.Exact
import Tutor.Value.Numeric

/-!
Limits from the right. Three rules are tried in this order: substitution, where it gives a defined
value; reduction of a rational function, whose poles give a signed infinity; and l'Hôpital's rule for
quotients of the form 0/0, as often as is allowed.
-/

set_option autoImplicit false
set_option relaxedAutoImplicit false

namespace Tutor

inductive LimitValue where
  | finite (value : Expr)
  | plusInfinity
  | minusInfinity
  deriving DecidableEq

namespace LimitValue

def text : LimitValue → String
  | .finite e => e.text
  | .plusInfinity => "oo"
  | .minusInfinity => "-oo"

end LimitValue

namespace RationalFunction

/-- The limit of a quotient in lowest terms from the right. At a pole of order `m` the sign is that of
the numerator and of the denominator without its factor `(x - p)^m`, which is positive there. -/
def limitAt (f : RationalFunction) (point : Rat) : LimitValue :=
  let below := f.denom.eval point
  if below = 0 then
    let order := f.denom.multiplicity point
    let cofactor := (f.denom.divExact? ((Poly.linear point).power order)).map (·.eval point)
    if 0 < f.numer.eval point * cofactor.getD 0 then .plusInfinity else .minusInfinity
  else .finite (.const (f.numer.eval point / below))

end RationalFunction

namespace Expr

/-- The value at a point by substitution: exact if possible; otherwise every part has to have a finite
floating-point value, and the value stays symbolic. -/
def valueAt? (e : Expr) (v : String) (point : Rat) : Option LimitValue :=
  let there := e.substitute v (.const point)
  match there.exactValue? with
  | some q => some (.finite (.const q))
  | none =>
    match there.numericValue? [] with
    | some _ => some (.finite there.simplifyFully)
    | none => none

def simplifiedValueAt? (e : Expr) (v : String) (point : Rat) : Option Rat :=
  (e.substitute v (.const point)).simplifyFully.exactValue?

/-- Reads an expression as a quotient; a factor beside the quotient and a sign before it go into the
numerator. -/
def splitQuotient? : Expr → Option (Expr × Expr)
  | .div a b => some (a, b)
  | .mul a (.div n d) => some (.mul a n, d)
  | .mul (.div n d) b => some (.mul b n, d)
  | .neg a => do
    let (n, d) ← splitQuotient? a
    return (.neg n, d)
  | _ => none

/-- The quotient of the derivatives, where numerator and denominator both vanish at the point. -/
def lHopital? (e : Expr) (v : String) (point : Rat) : Option Expr := do
  let (n, d) ← e.splitQuotient? <|> e.simplifyFully.splitQuotient?
  if n.simplifiedValueAt? v point = some 0 ∧ d.simplifiedValueAt? v point = some 0 then
    some (.div (n.derivative v) (d.derivative v))
  else none

/-- The limit from the right, with at most `depth` uses of l'Hôpital's rule. -/
def limitFrom? (v : String) (point : Rat) (e : Expr) (depth : Nat) : Option LimitValue :=
  let simplified := e.simplifyFully
  match simplified.valueAt? v point with
  | some found => some found
  | none =>
    match RationalFunction.ofExpr? v simplified with
    | some f => some (f.limitAt point)
    | none =>
      match depth with
      | 0 => none
      | rest + 1 => do limitFrom? v point (← e.lHopital? v point) rest

def limit (e : Expr) (v : String) (point : Rat) (depth : Nat) : Except Failure LimitValue :=
  match e.limitFrom? v point depth with
  | some found => .ok found
  | none => .error (.limitUnknown e v point)

end Expr

end Tutor
