import Tutor.Simplify.Product

/-!
Sums: the terms are collected by their sorted factors, put into the order of these factors, and the
constant comes last. Products are multiplied out over sums as long as the result stays small.
-/

set_option autoImplicit false
set_option relaxedAutoImplicit false

namespace Tutor.Simplify

open Tutor.Expr (joinLeft?)

def terms : Expr → List Expr
  | .add a b => terms a ++ terms b
  | .sub a b => terms a ++ (terms b).map neg
  | .neg a => (terms a).map neg
  | e => [e]

def termCount : Expr → Nat
  | .add a b | .sub a b => termCount a + termCount b
  | .neg a => termCount a
  | _ => 1

/-- The amounts of like terms: under the sorted factors of a term, the sum of its coefficients. Terms
with coefficient zero are not booked. -/
def collect (es : List Expr) : Tally (List Expr) :=
  Tally.ofList <| es.filterMap fun e =>
    let (c, base) := splitCoeff e
    if c = 0 then none else some (sortExprs (factors base), c)

/-- The sum of a list of terms, grouped to the left; zero for no terms. -/
def sum (es : List Expr) : Expr := (joinLeft? .add es).getD .zero

/-- The sum that a tally of like terms stands for: the terms in order, then the constant. -/
def ofTally (tally : Tally (List Expr)) : Expr :=
  let kept := tally.filter fun (_, c) => c ≠ 0
  let (constants, others) := kept.partition fun (key, _) => key.isEmpty
  sum (others.map (fun (key, c) => scale c (product key)) ++ constants.map fun (_, c) => .const c)

def add (x y : Expr) : Expr := ofTally (collect (terms x ++ terms y))

def sub (x y : Expr) : Expr := add x (neg y)

def expansionLimit : Nat := 64

def mulPlain (x y : Expr) : Expr :=
  match x, y with
  | .const p, .const q => .const (p * q)
  | x, y =>
    if x.isZero || y.isZero then .zero
    else if x.isOne then y
    else if y.isOne then x
    else
      let (c, base) := splitCoeff (.mul x y)
      scale c base

def mulRight (x : Expr) : Expr → Expr
  | .add a b =>
    if termCount x * (termCount a + termCount b) ≤ expansionLimit then
      add (mulRight x a) (mulRight x b)
    else .mul x (.add a b)
  | .sub a b =>
    if termCount x * (termCount a + termCount b) ≤ expansionLimit then
      sub (mulRight x a) (mulRight x b)
    else .mul x (.sub a b)
  | y => mulPlain x y

/-- The product of two simplified expressions: multiplied out over the left side, then over the
right. -/
def mul (x y : Expr) : Expr :=
  match x with
  | .add a b =>
    if (termCount a + termCount b) * termCount y ≤ expansionLimit then add (mul a y) (mul b y)
    else .mul (.add a b) y
  | .sub a b =>
    if (termCount a + termCount b) * termCount y ≤ expansionLimit then sub (mul a y) (mul b y)
    else .mul (.sub a b) y
  | x => mulRight x y

/-- A quotient of two simplified expressions with their coefficients divided; a divisor whose
coefficient is zero leaves it as it is. -/
def divPlain (x y : Expr) : Expr :=
  let (cx, bx) := splitCoeff x
  let (cy, yBase) := splitCoeff y
  if cy = 0 then .div x y
  else if bx = yBase ∧ bx.isOne = false then .const (cx / cy)
  else mul (.const (cx / cy)) (if yBase.isOne then bx else .div bx yBase)

def div (x y : Expr) : Expr :=
  match x, y with
  | .const n, .const d => if d = 0 then .div (.const n) (.const d) else .const (n / d)
  | x, y =>
    if x.isZero then .zero
    else if y.isOne then x
    else divPlain x y

end Tutor.Simplify
