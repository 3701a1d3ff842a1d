import Tutor.Solve
import Tutor.SolutionView
import Tutor.Verify

/-!
Reports: everything that comes of a problem text. The explanation is there exactly for valid solutions.
-/

set_option autoImplicit false
set_option relaxedAutoImplicit false

namespace Tutor

structure Report where
  problem : Problem
  outcome : Outcome
  verdict : Verdict
  explanation : Option (List String)

namespace Report

def explain (outcome : Outcome) (verdict : Verdict) : Option (List String) :=
  match outcome with
  | .ok solution => if verdict.valid then some solution.explanation else none
  | .error _ => none

/-- Solves the problem in a text and has a verifier judge it. Only a blank text gives no report. -/
def ofText (verifier : Verifier) (settings : Settings) (text : String) : Except Failure Report :=
  if Text.isBlankText text then .error .emptyProblem
  else
    let problem := Problem.ofText text
    let outcome := problem.solve settings.solver
    let verdict := verifier outcome
    .ok ⟨problem, outcome, verdict, explain outcome verdict⟩

end Report

def Verdict.toJson (verdict : Verdict) : Json :=
  .object [("valid", .bool verdict.valid), ("checks", .ofStrings verdict.checks),
    ("issues", .ofStrings verdict.issues)]

namespace Report

def toJson (report : Report) : Json :=
  let topic := report.problem.topic
  .object [
    ("parsed", .object [("problem_text", .string report.problem.text), ("topic", .string topic.name)]),
    ("route", .object [("topic", .string topic.name), ("strategy", .string topic.strategy.name)]),
    ("solution", (SolutionView.ofOutcome report.outcome).toJson),
    ("verification", report.verdict.toJson),
    ("explanation", .ofOption .ofStrings report.explanation)]

def lines (report : Report) : List String :=
  let view := SolutionView.ofOutcome report.outcome
  ["Problem: " ++ report.problem.text, "Topic: " ++ report.problem.topic.name,
    "Strategy: " ++ report.problem.topic.strategy.name, "Steps:"] ++
  view.steps.map ("  - " ++ ·) ++
  ["Answer: " ++ view.answer,
    "Verification: " ++ if report.verdict.valid then "valid" else "invalid"] ++
  report.verdict.issues.map ("  ! " ++ ·) ++
  match report.explanation with
  | some lines => "" :: lines
  | none => ["Solution could not be verified."]

end Report

end Tutor
