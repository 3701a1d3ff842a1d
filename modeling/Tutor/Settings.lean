import Tutor.Number.Literal
import Tutor.Text.Blank

/-!
Settings of the solver and of the feedback log, read from named values such as those of an environment.
A value that makes no sense is ignored.
-/

set_option autoImplicit false
set_option relaxedAutoImplicit false

namespace Tutor

structure SolverSettings where
  /-- The unknown that is solved for and differentiated by. -/
  unknown : String := "x"
  /-- How often l'Hôpital's rule may be used for one limit. -/
  depth : Nat := 4
  deriving DecidableEq, Repr

structure Settings where
  solver : SolverSettings := {}
  feedbackPath : String := "feedback_log.jsonl"
  deriving DecidableEq, Repr

namespace Settings

def unknownKey : String := "MATHMENTOR_VARIABLE"

def depthKey : String := "MATHMENTOR_LHOPITAL_DEPTH"

def feedbackKey : String := "MATHMENTOR_FEEDBACK_LOG"

def letter? (text : String) : Option String :=
  match text.toList with
  | [c] => if c.isAlpha then some (String.singleton c.toLower) else none
  | _ => none

/-- A count of at most 64 bits: digits, perhaps with a plus sign before them. -/
def count? (text : String) : Option Nat :=
  let digits := match text.toList with
    | '+' :: rest => rest
    | cs => cs
  let n := Number.digitsValue digits
  if !digits.isEmpty && digits.all Char.isDigit && n < UInt64.size then some n else none

/-- The settings that named values give; what is missing or makes no sense stays as it is by default. -/
def ofLookup (lookup : String → Option String) : Settings :=
  let standard : Settings := {}
  let unknown := (lookup unknownKey).bind fun value => letter? (Text.trim value)
  let depth := (lookup depthKey).bind fun value => count? (Text.trim value)
  let path := (lookup feedbackKey).bind fun value =>
    if Text.isBlankText value then none else some value
  { solver :=
      { unknown := unknown.getD standard.solver.unknown, depth := depth.getD standard.solver.depth }
    feedbackPath := path.getD standard.feedbackPath }

example : count? "+007" = some 7 := by decide +kernel
example : count? "18446744073709551616" = none := by decide +kernel

end Settings

end Tutor
