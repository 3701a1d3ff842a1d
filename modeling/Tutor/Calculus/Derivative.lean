import Tutor.Simplify.Pass

/-!
Symbolic derivatives by the rules of calculus, each result simplified by one pass.
-/

set_option autoImplicit false
set_option relaxedAutoImplicit false

namespace Tutor.Expr

def square (a : Expr) : Expr := .pow a (.const 2)

def productRule (a b da db : Expr) : Expr := (Expr.add (.mul da b) (.mul a db)).simplify

/-- The derivative of a quotient; a divisor without the variable stays as it is. -/
def quotientRule (v : String) (a b da db : Expr) : Expr :=
  if b.mentions v then (Expr.div (.sub (.mul da b) (.mul a db)) b.square).simplify
  else (Expr.div da b).simplify

/-- The derivative of a power: with an exponent free of the variable the exponent is lowered by one,
otherwise the power is read as `exp (e · log b)`. -/
def powerRule (v : String) (b e db de : Expr) : Expr :=
  if e.mentions v then
    (Expr.mul (.pow b e) (.add (.mul de (.log b)) (.div (.mul e db) b))).simplify
  else
    (Expr.mul (.mul e (.pow b (Expr.sub e .one).simplify)) db).simplify

def chainRule (da outer : Expr) : Expr := (Expr.mul da outer).simplify

/-- The derivative of an expression in `v`. Whatever does not mention `v` has derivative zero. -/
def derivative (v : String) (e : Expr) : Expr :=
  if e.mentions v = false then .zero
  else
    match e with
    | .var _ => .one
    | .const _ => .zero
    | .add a b => Simplify.add (derivative v a) (derivative v b)
    | .sub a b => Simplify.sub (derivative v a) (derivative v b)
    | .mul a b => productRule a b (derivative v a) (derivative v b)
    | .div a b => quotientRule v a b (derivative v a) (derivative v b)
    | .pow a b => powerRule v a b (derivative v a) (derivative v b)
    | .neg a => (Expr.neg (derivative v a)).simplify
    | .sin a => chainRule (derivative v a) (.cos a)
    | .cos a => (Expr.neg (chainRule (derivative v a) (.sin a))).simplify
    | .tan a => chainRule (derivative v a) (.div .one (Expr.cos a).square)
    | .exp a => chainRule (derivative v a) (.exp a)
    | .log a => (Expr.div (derivative v a) a).simplify

end Tutor.Expr
