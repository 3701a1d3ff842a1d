import Std.Data.HashMap
import Tutor.Simplify.Sum

/-!
Simplification passes. One pass simplifies every node once, parts first. Passes are repeated until
one of them changes nothing, or up to a limit; repeated passes share a table of what is known
already, which saves work and changes no result.
-/

set_option autoImplicit false
set_option relaxedAutoImplicit false

namespace Tutor

namespace Simplify

def node : Expr → Expr
  | .add a b => add a b
  | .sub a b => sub a b
  | .mul a b => mul a b
  | .div a b => div a b
  | .pow a b => pow a b
  | .neg a => neg a
  | .sin a =>
    if a.isZero then .zero
    else match a with
      | .neg b => neg (.sin b)
      | _ => .sin a
  | .cos a =>
    if a.isZero then .one
    else match a with
      | .neg b => .cos b
      | _ => .cos a
  | .tan a =>
    if a.isZero then .zero
    else match a with
      | .neg b => neg (.tan b)
      | _ => .tan a
  | .exp a =>
    if a.isZero then .one
    else match a with
      | .log b => b
      | _ => .exp a
  | .log a =>
    if a.isOne then .zero
    else match a with
      | .exp b => b
      | _ => .log a
  | .var v => .var v
  | .const q => .const q

end Simplify

namespace Expr

open Simplify (node)

def simplify : Expr → Expr
  | .add a b => node (.add (simplify a) (simplify b))
  | .sub a b => node (.sub (simplify a) (simplify b))
  | .mul a b => node (.mul (simplify a) (simplify b))
  | .div a b => node (.div (simplify a) (simplify b))
  | .pow a b => node (.pow (simplify a) (simplify b))
  | .neg a => node (.neg (simplify a))
  | .sin a => node (.sin (simplify a))
  | .cos a => node (.cos (simplify a))
  | .tan a => node (.tan (simplify a))
  | .exp a => node (.exp (simplify a))
  | .log a => node (.log (simplify a))
  | .var v => .var v
  | .const q => .const q

/-- Expressions and their simplified forms, as far as they are known. -/
abbrev Simplified := Std.HashMap Expr Expr

def remembered (e : Expr) (work : StateM Simplified Expr) : StateM Simplified Expr := do
  match (← get)[e]? with
  | some result => return result
  | none =>
    let result ← work
    modify (·.insert e result)
    return result

def simplifyM : Expr → StateM Simplified Expr
  | .add a b => remembered (.add a b) do return node (.add (← simplifyM a) (← simplifyM b))
  | .sub a b => remembered (.sub a b) do return node (.sub (← simplifyM a) (← simplifyM b))
  | .mul a b => remembered (.mul a b) do return node (.mul (← simplifyM a) (← simplifyM b))
  | .div a b => remembered (.div a b) do return node (.div (← simplifyM a) (← simplifyM b))
  | .pow a b => remembered (.pow a b) do return node (.pow (← simplifyM a) (← simplifyM b))
  | .neg a => remembered (.neg a) do return node (.neg (← simplifyM a))
  | .sin a => remembered (.sin a) do return node (.sin (← simplifyM a))
  | .cos a => remembered (.cos a) do return node (.cos (← simplifyM a))
  | .tan a => remembered (.tan a) do return node (.tan (← simplifyM a))
  | .exp a => remembered (.exp a) do return node (.exp (← simplifyM a))
  | .log a => remembered (.log a) do return node (.log (← simplifyM a))
  | .var v => remembered (.var v) (pure (.var v))
  | .const q => remembered (.const q) (pure (.const q))

/-- Repeats passes over a shared table until one changes nothing or none is left. -/
def passes (known : Simplified) (e : Expr) : Nat → Expr
  | 0 => e
  | limit + 1 =>
    let (next, known) := (simplifyM e).run known
    if next = e then e else passes known next limit

def simplifyWithLimit (e : Expr) (limit : Nat) : Expr := passes ∅ e limit

def fullPasses : Nat := 16

/-- Passes until nothing changes, sixteen at most. -/
def simplifyFully (e : Expr) : Expr := e.simplifyWithLimit fullPasses

end Expr

end Tutor
