import Tutor.Expr.Basic
import Tutor.Number.Fraction

/-!
The written form of an expression: few brackets, no blanks, minus signs pulled to the front of a
product or a quotient and merged into sums. Brackets depend on how tightly the surroundings bind:
level 0 outside, 1 in a sum, 2 in a product or to the right of a sign, 3 in a divisor, 4 in a power.
-/

set_option autoImplicit false
set_option relaxedAutoImplicit false

namespace Tutor.Expr

open Number (fractionText)

/-- Whether the written form starts with a minus sign that a sum or product can absorb. -/
def signed : Expr → Bool
  | .neg _ => true
  | .const q => q < 0
  | _ => false

def unsigned : Expr → Expr
  | .neg a => a
  | .const q => if q < 0 then .const (-q) else .const q
  | e => e

def isHalf (e : Expr) : Bool := e.const? == some (1 / 2)

/-- Brackets around a body that binds less tightly than its surroundings ask for. -/
def bracket (level strength : Nat) (body : String) : String :=
  if strength < level then "(" ++ body ++ ")" else body

def constText (level : Nat) (q : Rat) : String :=
  if q.den = 1 then fractionText q else bracket level 2 (fractionText q)

def signText (a b : Expr) : String := if a.signed != b.signed then "-" else ""

/-- The written form of an expression (`bare = false`), or of its unsigned part (`bare = true`), for
surroundings of the given level. -/
def textAt (bare : Bool) (level : Nat) : Expr → String
  | .var name => name
  | .const q => constText level (if bare && q < 0 then -q else q)
  | .add a b =>
    bracket level 1 (textAt false 1 a ++ (if b.signed then "-" else "+") ++ textAt true 2 b)
  | .sub a b =>
    bracket level 1 (textAt false 1 a ++ (if b.signed then "+" else "-") ++ textAt true 2 b)
  | .mul a b => bracket level 2 (signText a b ++ textAt true 2 a ++ "*" ++ textAt true 2 b)
  | .div a b => bracket level 2 (signText a b ++ textAt true 2 a ++ "/" ++ textAt true 3 b)
  | .pow a b =>
    if b.isHalf then "sqrt(" ++ textAt false 0 a ++ ")"
    else bracket level 3 (textAt false 4 a ++ "^" ++ textAt false 4 b)
  | .neg a =>
    if bare then textAt false level a
    else if a.signed then textAt true level a
    else bracket level 2 ("-" ++ textAt true 4 a)
  | .sin a => "sin(" ++ textAt false 0 a ++ ")"
  | .cos a => "cos(" ++ textAt false 0 a ++ ")"
  | .tan a => "tan(" ++ textAt false 0 a ++ ")"
  | .exp a => "exp(" ++ textAt false 0 a ++ ")"
  | .log a => "log(" ++ textAt false 0 a ++ ")"

def text (e : Expr) : String := textAt false 0 e

def listText (es : List Expr) : String := "[" ++ String.intercalate ", " (es.map text) ++ "]"

example : text (.sub (.var "x") (.neg (.mul (.const (-2)) (.var "y")))) = "x+-2*y" := by
  decide +kernel

end Tutor.Expr
