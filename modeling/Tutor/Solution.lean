import Tutor.Calculus.Limit
import Tutor.Failure

/-!
Solutions: the steps taken, the answer, and a certificate that says what the answer claims, so that it
can be checked. A problem that is not solved has a refusal instead.
-/

set_option autoImplicit false
set_option relaxedAutoImplicit false

namespace Tutor

open Number (fractionText)

inductive Answer where
  /-- Real roots in the order of their doubles. -/
  | roots (items : List Expr)
  | value (expr : Expr)
  | limit (found : LimitValue)
  | probability (share : Rat)
  | notAvailable
  deriving DecidableEq

def Answer.text : Answer → String
  | .roots items => Expr.listText items
  | .value e => e.text
  | .limit found => found.text
  | .probability q => fractionText q
  | .notAvailable => "N/A"

/-- What an answer claims. -/
inductive Certificate where
  /-- The answer lists the real zeros of an expression. -/
  | roots (equation : Expr) (unknown : String)
  | derivative (function : Expr) (unknown : String)
  /-- The answer is the limit of a function at a point from the right. -/
  | limit (function : Expr) (unknown : String) (point : Rat)
  /-- The answer is the determinant of these rows. -/
  | determinant (rows : List (List Int))
  /-- The answer is the share of the favorable among all outcomes. -/
  | probability (favorable total : Int)
  deriving DecidableEq

structure Solution where
  steps : List String
  answer : Answer
  certificate : Option Certificate := none
  deriving DecidableEq

inductive RefusalKind where
  /-- The formula in the text cannot be read. -/
  | parse
  /-- The engine cannot finish. -/
  | engine
  /-- No solver covers the problem. -/
  | unhandled
  /-- Matrix rows are missing or do not fit together. -/
  | matrixShape
  deriving DecidableEq, Repr

def RefusalKind.name : RefusalKind → String
  | .parse => "parse"
  | .engine => "engine"
  | .unhandled => "unhandled"
  | .matrixShape => "matrix_shape"

def RefusalKind.all : List RefusalKind := [.parse, .engine, .unhandled, .matrixShape]

def RefusalKind.ofName? (name : String) : Option RefusalKind :=
  all.find? fun kind => kind.name == name

theorem RefusalKind.ofName?_name (kind : RefusalKind) : ofName? kind.name = some kind := by
  cases kind <;> decide

structure Refusal where
  kind : RefusalKind
  message : String
  deriving DecidableEq

namespace Refusal

def unhandled : Refusal := ⟨.unhandled, "Could not solve automatically"⟩

def tooManyTosses : Refusal := ⟨.engine, "too many coin tosses to count"⟩

def kindOf : Failure → RefusalKind
  | .notAnExpression _ _ | .notAnInteger _ _ | .invalidTarget _ | .emptyProblem => .parse
  | .notRational _ _ | .noClosedForm _ | .coefficientTooLarge _ | .limitUnknown _ _ _ => .engine
  | .raggedRows _ _ | .emptyMatrix | .notSquare _ _ => .matrixShape

def ofFailure (failure : Failure) : Refusal := ⟨kindOf failure, failure.message⟩

end Refusal

abbrev Outcome := Except Refusal Solution

def orRefuse {α : Type} (found : Except Failure α) : Except Refusal α :=
  found.mapError Refusal.ofFailure

@[simp] theorem orRefuse_ok {α : Type} (a : α) : orRefuse (.ok a) = .ok a := rfl

@[simp] theorem orRefuse_error {α : Type} (failure : Failure) :
    orRefuse (.error failure : Except Failure α) = .error (.ofFailure failure) := rfl

theorem orRefuse_eq_ok_iff {α : Type} {found : Except Failure α} {a : α} :
    orRefuse found = .ok a ↔ found = .ok a := by
  cases found <;> simp

/-- The explanation of a solution: a preamble, the steps in order, and the answer. -/
def Solution.explanation (solution : Solution) : List String :=
  "We first understand what is being asked." :: solution.steps ++
    ["Final Answer: " ++ solution.answer.text]

end Tutor
