import Tutor.Expr.Basic
import Tutor.Number.Root

/-!
Powers with a constant exponent. Exponents zero and one disappear, integer powers of constants are
worked out, half-integer powers of perfect squares become integer powers of the root, and an integer
power of a constant power multiplies the exponents.
-/

set_option autoImplicit false
set_option relaxedAutoImplicit false

namespace Tutor.Simplify

open Number (exactRationalSqrt?)

/-- An integer power of a rational: `none` if its exponent has more than 32 bits, or if it is negative
and the base is zero. -/
def integerPower? (b : Rat) (k : Int) : Option Rat :=
  if UInt32.size ≤ k.natAbs then none
  else if 0 ≤ k then some (b ^ k.natAbs)
  else if b = 0 then none
  else some (b ^ k.natAbs)⁻¹

/-- A power of constants with an exponent other than zero and one. -/
def constPow (b e : Rat) : Expr :=
  if e.den = 1 then
    match integerPower? b e.num with
    | some c => .const c
    | none => .pow (.const b) (.const e)
  else if e.den = 2 then
    match exactRationalSqrt? b with
    | some root =>
      match integerPower? root e.num with
      | some c => .const c
      | none => .pow (.const root) (.const e.num)
    | none => .pow (.const b) (.const e)
  else .pow (.const b) (.const e)

def raise (x : Expr) (e : Rat) : Expr :=
  if e = 0 then .one
  else if e = 1 then x
  else
    match x with
    | .const b => constPow b e
    | .pow base (.const k) => if e.den = 1 then raise base (k * e) else .pow x (.const e)
    | _ => .pow x (.const e)

def pow (x : Expr) : Expr → Expr
  | .const e => raise x e
  | y => .pow x y

example : raise (.const (9 / 4)) (-3 / 2) = .const (8 / 27) := by decide +kernel
example : raise (.pow (.var "x") (.const (1 / 2))) 2 = .var "x" := by decide +kernel

end Tutor.Simplify
