/-!
Expressions of school algebra and calculus: exact rational constants, named variables, the four
operations, powers, the sign, and the elementary functions. A square root is a power with exponent
one half, so there is no node of its own for it.

The order on expressions is total: first by kind, in the order of the constructors, then by the
parts from left to right. Normal forms of sums and products are sorted by it.
-/

set_option autoImplicit false
set_option relaxedAutoImplicit false

namespace Tutor

/-- An expression tree, exactly as it was written or built: nothing is simplified. -/
inductive Expr where
  | var (name : String)
  | const (value : Rat)
  | add (a b : Expr)
  | sub (a b : Expr)
  | mul (a b : Expr)
  | div (a b : Expr)
  | pow (a b : Expr)
  | neg (a : Expr)
  | sin (a : Expr)
  | cos (a : Expr)
  | tan (a : Expr)
  | exp (a : Expr)
  | log (a : Expr)
  deriving DecidableEq, Hashable, Repr

namespace Expr

instance : Inhabited Expr := ⟨.const 0⟩

def zero : Expr := .const 0

def one : Expr := .const 1

def integer (n : Int) : Expr := .const n

/-- The square root, a power of one half. -/
def sqrt (a : Expr) : Expr := .pow a (.const (1 / 2))

def const? : Expr → Option Rat
  | .const q => some q
  | _ => none

/-- Whether the tree is the constant zero (not whether its value is). -/
def isZero (e : Expr) : Bool := e.const? == some 0

def isOne (e : Expr) : Bool := e.const? == some 1

def mentions (v : String) : Expr → Bool
  | .var name => name == v
  | .const _ => false
  | .add a b | .sub a b | .mul a b | .div a b | .pow a b => a.mentions v || b.mentions v
  | .neg a | .sin a | .cos a | .tan a | .exp a | .log a => a.mentions v

def kind : Expr → Nat
  | .var _ => 0
  | .const _ => 1
  | .add _ _ => 2
  | .sub _ _ => 3
  | .mul _ _ => 4
  | .div _ _ => 5
  | .pow _ _ => 6
  | .neg _ => 7
  | .sin _ => 8
  | .cos _ => 9
  | .tan _ => 10
  | .exp _ => 11
  | .log _ => 12

/-- Kinds first; within a kind names by code points, constants by value, and parts from left to
right. -/
def order : Expr → Expr → Ordering
  | .var s, .var t => compare s t
  | .const p, .const q => compareOfLessAndEq p q
  | .add a b, .add c d => (order a c).then (order b d)
  | .sub a b, .sub c d => (order a c).then (order b d)
  | .mul a b, .mul c d => (order a c).then (order b d)
  | .div a b, .div c d => (order a c).then (order b d)
  | .pow a b, .pow c d => (order a c).then (order b d)
  | .neg a, .neg c => order a c
  | .sin a, .sin c => order a c
  | .cos a, .cos c => order a c
  | .tan a, .tan c => order a c
  | .exp a, .exp c => order a c
  | .log a, .log c => order a c
  | e, f => compare e.kind f.kind

instance : Ord Expr := ⟨order⟩

def substitute (e : Expr) (v : String) (replacement : Expr) : Expr :=
  match e with
  | .var name => if name == v then replacement else .var name
  | .const q => .const q
  | .add a b => .add (a.substitute v replacement) (b.substitute v replacement)
  | .sub a b => .sub (a.substitute v replacement) (b.substitute v replacement)
  | .mul a b => .mul (a.substitute v replacement) (b.substitute v replacement)
  | .div a b => .div (a.substitute v replacement) (b.substitute v replacement)
  | .pow a b => .pow (a.substitute v replacement) (b.substitute v replacement)
  | .neg a => .neg (a.substitute v replacement)
  | .sin a => .sin (a.substitute v replacement)
  | .cos a => .cos (a.substitute v replacement)
  | .tan a => .tan (a.substitute v replacement)
  | .exp a => .exp (a.substitute v replacement)
  | .log a => .log (a.substitute v replacement)

/-- Joins a list by a binary node, grouping to the left; `none` for the empty list. -/
def joinLeft? (node : Expr → Expr → Expr) : List Expr → Option Expr
  | [] => none
  | e :: rest => some (rest.foldl node e)

@[simp] theorem isZero_iff (e : Expr) : e.isZero = true ↔ e = .const 0 := by
  cases e <;> simp [isZero, const?]

@[simp] theorem isOne_iff (e : Expr) : e.isOne = true ↔ e = .const 1 := by
  cases e <;> simp [isOne, const?]

end Expr

end Tutor
