import Tutor.Number.Shortest
import Tutor.RationalFunction
import Tutor.RationalMatrix.Determinant
import Tutor.Solution
import Tutor.Text.Blank
import Tutor.Value.Numeric

/-!
Checking outcomes. A certificate is checked by other means than those that found the answer: roots and
limits by floating-point substitution, derivatives by differences, determinants by expansion or by
elimination without fractions, probabilities by counting. An outcome is valid if nothing was found
against it.
-/

set_option autoImplicit false
set_option relaxedAutoImplicit false

namespace Tutor

open Number (naturalText integerText fractionText floatText floatScientific nearestFloat)

inductive Finding where
  | passed (check : String)
  | failed (issue : String)
  deriving DecidableEq, Repr

def Finding.check? : Finding → Option String
  | .passed check => some check
  | .failed _ => none

def Finding.issue? : Finding → Option String
  | .passed _ => none
  | .failed issue => some issue

structure Verdict where
  valid : Bool
  checks : List String
  issues : List String
  deriving DecidableEq, Repr

def Verdict.ofFindings (findings : List Finding) : Verdict :=
  let issues := findings.filterMap Finding.issue?
  ⟨issues.isEmpty, findings.filterMap Finding.check?, issues⟩

abbrev Verifier := Outcome → Verdict

namespace Verify

/-- Where functions are sampled: away from the integers, where textbook functions have their poles. -/
def samplePoints : List Float := [-1.73, 0.37, 1.21, 2.53]

/-- How far from zero an equation may be at a root, relative to its size nearby. -/
def rootTolerance : Float := 1e-9

/-- The distance of the points that a difference is taken between. -/
def differenceStep : Float := 1e-5

/-- How far a derivative may be from the difference quotient, relatively. -/
def derivativeTolerance : Float := 1e-4

/-- How far to the right of its point a limit is sampled, relatively. -/
def limitOffset : Float := 1e-5

/-- How far a limit may be from the sampled value, relatively. -/
def limitTolerance : Float := 1e-3

/-- The magnitude from which on a function counts as unbounded. -/
def poleMagnitude : Float := 1e3

def expansionRows : Nat := 6

def sample (e : Expr) (unknown : String) (x : Float) : Option Float := e.numericValue? [(unknown, x)]

/-- The size of an equation near a root, at least one. -/
def sizeNear (equation : Expr) (unknown : String) (r : Float) : Float :=
  ([r - 1, r + 1].filterMap (sample equation unknown)).foldl
    (fun size v => if size < v.abs then v.abs else size) 1

def rootFinding (equation : Expr) (unknown : String) (root : Expr) : Finding :=
  match root.numericValue? [] with
  | none => .failed ("root " ++ root.text ++ " is not a real number")
  | some r =>
    match sample equation unknown r with
    | none => .failed ("equation is undefined at root " ++ root.text)
    | some residual =>
      if residual.abs ≤ rootTolerance * sizeNear equation unknown r then
        .passed (unknown ++ " = " ++ root.text ++ " satisfies the equation")
      else
        .failed (unknown ++ " = " ++ root.text ++ " leaves residual " ++ floatScientific residual)

/-- No roots are right only for an equation that says a non-zero constant is zero. -/
def noRootsFinding (equation : Expr) (unknown : String) : Finding :=
  match (RationalFunction.ofExpr? unknown equation).bind (·.numer.degree?) with
  | some 0 => .passed "equation is a nonzero constant and has no solutions"
  | _ => .failed ("no roots reported for an equation in " ++ unknown ++ " that may have some")

def rootFindings (equation : Expr) (unknown : String) (roots : List Expr) : List Finding :=
  if roots.isEmpty then [noRootsFinding equation unknown]
  else roots.map (rootFinding equation unknown)

inductive Comparison where
  | undefined
  | agrees
  | differs (claimed estimate : Float)

def compareAt (function derivative : Expr) (unknown : String) (x : Float) : Comparison :=
  match sample function unknown (x + differenceStep), sample function unknown (x - differenceStep),
    sample derivative unknown x with
  | some ahead, some behind, some claimed =>
    let estimate := (ahead - behind) / (2 * differenceStep)
    if derivativeTolerance * (1 + claimed.abs) < (estimate - claimed).abs then
      .differs claimed estimate
    else .agrees
  | _, _, _ => .undefined

/-- Compares a derivative with difference quotients, up to the first point that speaks against it;
`agreeing` points have spoken for it. -/
def derivativeFinding (function derivative : Expr) (unknown : String) (agreeing : Nat) :
    List Float → Finding
  | [] =>
    if agreeing = 0 then .passed "derivative could not be sampled numerically"
    else .passed ("derivative matches finite differences at " ++ naturalText agreeing ++ " points")
  | x :: rest =>
    match compareAt function derivative unknown x with
    | .undefined => derivativeFinding function derivative unknown agreeing rest
    | .agrees => derivativeFinding function derivative unknown (agreeing + 1) rest
    | .differs claimed estimate =>
      .failed ("derivative at " ++ unknown ++ " = " ++ floatText x ++ " is " ++ floatText claimed ++
        ", finite difference gives " ++ floatText estimate)

def limitAgreement (unknown : String) (p sampled : Float) (value : LimitValue) (agrees : Bool) :
    Finding :=
  if agrees then
    .passed ("function approaches " ++ value.text ++ " right of " ++ unknown ++ " = " ++ floatText p)
  else
    .failed ("function is " ++ floatText sampled ++ " right of " ++ unknown ++ " = " ++ floatText p ++
      ", not near " ++ value.text)

def limitFinding (function : Expr) (unknown : String) (point : Rat) (value : LimitValue) : Finding :=
  let p := nearestFloat point
  match sample function unknown (p + limitOffset * (1 + p.abs)) with
  | none => .passed "limit could not be sampled numerically"
  | some sampled =>
    match value with
    | .finite e =>
      match e.numericValue? [] with
      | none => .failed ("limit " ++ e.text ++ " is not a real number")
      | some claimed =>
        limitAgreement unknown p sampled value
          ((sampled - claimed).abs ≤ limitTolerance * (1 + claimed.abs))
    | .plusInfinity => limitAgreement unknown p sampled value (poleMagnitude < sampled)
    | .minusInfinity => limitAgreement unknown p sampled value (sampled < -poleMagnitude)

def determinantFinding (rows : List (List Int)) (value : Expr) : Finding :=
  let judge (method : String) : Except Failure Rat → Finding
    | .error failure => .failed ("matrix cannot be rebuilt: " ++ failure.message)
    | .ok expected =>
      if value.const? = some expected then .passed ("determinant agrees with " ++ method)
      else
        .failed (method ++ " gives " ++ fractionText expected ++ ", solver reported " ++ value.text)
  match RationalMatrix.ofRows rows with
  | .error failure => judge "reconstruction" (.error failure)
  | .ok matrix =>
    if matrix.rows ≤ expansionRows then judge "cofactor expansion" matrix.cofactorDeterminant
    else judge "fraction-free elimination" matrix.bareissDeterminant

def probabilityFinding (favorable total : Int) (reported : Rat) : Finding :=
  if total ≤ 0 then .failed "sample space is empty"
  else if favorable < 0 ∨ total < favorable then
    .failed (integerText favorable ++ " favorable outcomes out of " ++ integerText total)
  else if (favorable : Rat) / (total : Rat) = reported then
    .passed (integerText favorable ++ " of " ++ integerText total ++ " outcomes gives " ++
      fractionText reported)
  else
    .failed (integerText favorable ++ "/" ++ integerText total ++ " does not reduce to " ++
      fractionText reported)

def certificateFindings : Certificate → Answer → List Finding
  | .roots equation unknown, .roots roots => rootFindings equation unknown roots
  | .derivative function unknown, .value derivative =>
    [derivativeFinding function derivative unknown 0 samplePoints]
  | .limit function unknown point, .limit value => [limitFinding function unknown point value]
  | .determinant rows, .value value => [determinantFinding rows value]
  | .probability favorable total, .probability reported =>
    [probabilityFinding favorable total reported]
  | _, _ => [.failed "answer does not match the kind of problem solved"]

def stepsFinding (steps : List String) : Finding :=
  if steps.isEmpty then .failed "no solution steps recorded"
  else if steps.any Text.isBlankText then .failed "a solution step is empty"
  else .passed (naturalText steps.length ++ " solution steps recorded")

def answerFindings (answer : Answer) : List Finding :=
  if answer = .notAvailable then [.failed "no final answer"] else []

def findings : Outcome → List Finding
  | .error refusal => [.failed ("solver failed: " ++ refusal.message)]
  | .ok solution =>
    stepsFinding solution.steps :: answerFindings solution.answer ++
      match solution.certificate with
      | some certificate => certificateFindings certificate solution.answer
      | none => []

def consistency : Verifier := fun outcome => .ofFindings (findings outcome)

theorem valid_ofFindings_iff (fs : List Finding) :
    (Verdict.ofFindings fs).valid = true ↔ ∀ f ∈ fs, f.issue? = none := by
  simp [Verdict.ofFindings, List.isEmpty_iff, List.filterMap_eq_nil_iff]

end Verify

end Tutor
