import Tutor.Simplify.Power
import Tutor.Tally

/-!
Products without sums: a rational coefficient times a product of powers. Equal bases are merged, and
the factors are sorted, so products that differ in the order of their factors only become equal.
-/

set_option autoImplicit false
set_option relaxedAutoImplicit false

namespace Tutor.Simplify

open Tutor.Expr (joinLeft?)

/-- The factors of a product, from left to right; a factor one is left out. -/
def factors : Expr → List Expr
  | .mul a b => factors a ++ factors b
  | e => if e.isOne then [] else [e]

def insertSorted (e : Expr) : List Expr → List Expr
  | [] => [e]
  | f :: rest => if (compare e f).isGT then f :: insertSorted e rest else e :: f :: rest

def sortExprs (es : List Expr) : List Expr := es.foldr insertSorted []

theorem perm_sortExprs (es : List Expr) : (sortExprs es).Perm es := by
  have insert_perm (e : Expr) (rest : List Expr) : (insertSorted e rest).Perm (e :: rest) := by
    induction rest with
    | nil => exact .refl _
    | cons f rest ih =>
      simp only [insertSorted]
      split
      · exact (ih.cons f).trans (.swap e f rest)
      · exact .refl _
  induction es with
  | nil => exact .refl _
  | cons e rest ih => exact (insert_perm e _).trans (ih.cons e)

/-- The product of some factors, grouped to the left; one for no factors. -/
def product (es : List Expr) : Expr := (joinLeft? .mul es).getD .one

def powerOf : Expr → Expr × Rat
  | .pow base (.const e) => (base, e)
  | e => (e, 1)

/-- Multiplies two products that have no coefficient, merging equal bases. What becomes a constant on
the way is the coefficient of the result. -/
def mergeFactors (a b : Expr) : Rat × Expr :=
  let powers := Tally.ofList ((factors a ++ factors b).map powerOf)
  let merged := powers.map fun (base, e) => raise base e
  ((merged.filterMap Expr.const?).foldl (· * ·) 1,
    product (sortExprs (merged.filter fun e => e.const?.isNone)))

/-- A term as its rational coefficient and the rest; the rest of a constant is one. -/
def splitCoeff : Expr → Rat × Expr
  | .const c => (c, .one)
  | .neg e => (-(splitCoeff e).1, (splitCoeff e).2)
  | .mul a b =>
    let (ca, ba) := splitCoeff a
    let (cb, bb) := splitCoeff b
    let (cm, base) := mergeFactors ba bb
    (ca * cb * cm, base)
  | e => (1, e)

/-- A coefficient times an expression, where the negated expression is at hand. -/
def scaleWith (c : Rat) (e negated : Expr) : Expr :=
  if c = 0 then .zero
  else if e.isOne then .const c
  else if c = 1 then e
  else if c = -1 then negated
  else .mul (.const c) e

def neg : Expr → Expr
  | .const q => .const (-q)
  | .neg a => a
  | .mul (.const c) b => scaleWith (-c) b (neg b)
  | e => .neg e

def scale (c : Rat) (e : Expr) : Expr := scaleWith c e (neg e)

example : splitCoeff (.mul (.var "y") (.mul (.const 3) (.mul (.var "x") (.var "y")))) =
    (3, .mul (.var "x") (.pow (.var "y") (.const 2))) := by decide +kernel

end Tutor.Simplify
