import Mathlib.Tactic.Common
import Tutor.Report

/-!
Explanations in reports. Whatever the verifier and the settings, a text that is not blank gets a report,
and its explanation is there exactly if the problem was solved and the verifier accepts the solution. A
verifier that accepts a refusal leaves a valid verdict without explanation; the one that checks
certificates accepts none, so that with it an explanation is there exactly if the verdict is valid.
-/

set_option autoImplicit false
set_option relaxedAutoImplicit false

namespace Tutor

variable {verifier : Verifier} {settings : Settings} {text : String} {outcome : Outcome} {verdict : Verdict}
  {lines : List String} {report : Report}

def Verifier.RejectsRefusals (verifier : Verifier) : Prop :=
  ∀ refusal, (verifier (.error refusal)).valid = false

private theorem Verify.rejectsRefusals_consistency : Verifier.RejectsRefusals consistency := fun _ => rfl

namespace Report

/-- The report holds the problem in a text, what its solver makes of it, and what a verifier says to that. -/
structure IsOn (verifier : Verifier) (settings : Settings) (text : String) (report : Report) : Prop where
  problem : report.problem = Problem.ofText text
  outcome : report.outcome = (Problem.ofText text).solve settings.solver
  verdict : report.verdict = verifier report.outcome
  explanation : report.explanation = explain report.outcome report.verdict

private theorem exists_isOn (verifier : Verifier) (settings : Settings) (h : Text.isBlankText text = false) :
    ∃ report, ofText verifier settings text = .ok report ∧ report.IsOn verifier settings text := by
  simp only [ofText, h, Bool.false_eq_true, if_false, Except.ok.injEq, exists_eq_left']
  -- the solver is not to be unfolded here
  constructor <;> with_reducible rfl

private theorem explain_eq_some_iff : explain outcome verdict = some lines ↔
    ∃ solution, outcome = .ok solution ∧ verdict.valid = true ∧ solution.explanation = lines := by
  cases outcome with
  | error refusal => simp [explain]
  | ok solution => simp [explain]

private theorem isSome_explain_iff : (explain outcome verdict).isSome = true ↔
    verdict.valid = true ∧ ∃ solution, outcome = .ok solution := by
  simp only [Option.isSome_iff_exists, explain_eq_some_iff]
  grind

private theorem IsOn.isSome_explanation_iff (h : report.IsOn verifier settings text)
    (rejects : verifier.RejectsRefusals) :
    report.explanation.isSome = true ↔ report.verdict.valid = true := by
  rw [h.explanation, isSome_explain_iff]
  refine ⟨fun explained => explained.1, fun valid => ⟨valid, ?_⟩⟩
  rw [h.verdict] at valid
  cases solved : report.outcome with
  | ok solution => exact ⟨solution, rfl⟩
  | error refusal =>
    rw [solved, rejects refusal] at valid
    cases valid

/-- Every text that is not blank gets a report. It is explained exactly if the problem was solved and the
verdict is valid; then the explanation is the preamble, the steps of the solution in order, and the line
with the answer. If the verifier accepts no refusal, a report is explained exactly if its verdict is valid. -/
theorem explained_iff_valid_solution (verifier : Verifier) (settings : Settings) (text : String)
    (h : Text.isBlankText text = false) :
    ∃ report, ofText verifier settings text = .ok report ∧ report.IsOn verifier settings text ∧
      (report.explanation.isSome = true ↔
        report.verdict.valid = true ∧ ∃ solution, report.outcome = .ok solution) ∧
      (∀ lines, report.explanation = some lines → ∃ solution, report.outcome = .ok solution ∧
        lines = ["We first understand what is being asked."] ++ solution.steps ++
          ["Final Answer: " ++ solution.answer.text]) ∧
      (verifier.RejectsRefusals →
        (report.explanation.isSome = true ↔ report.verdict.valid = true)) := by
  obtain ⟨report, made, isOn⟩ := exists_isOn verifier settings h
  refine ⟨report, made, isOn, ?_, ?_, isOn.isSome_explanation_iff⟩
  · rw [isOn.explanation]
    exact isSome_explain_iff
  · intro lines explained
    rw [isOn.explanation] at explained
    obtain ⟨solution, solved, -, rfl⟩ := explain_eq_some_iff.mp explained
    exact ⟨solution, solved, rfl⟩

/-- A verified determinant is explained by the steps of its solver. -/
theorem explained_iff_valid_solution_determinant : ∃ report,
    ofText Verify.consistency {} "determinant of [1, 2], [3, 4]" = .ok report ∧
      report.verdict.valid = true ∧ ∃ solution, report.outcome = .ok solution ∧
      report.explanation = some (["We first understand what is being asked."] ++ solution.steps ++
        ["Final Answer: " ++ solution.answer.text]) := by
  have visible : Text.isBlankText "determinant of [1, 2], [3, 4]" = false := by decide +kernel
  have accepted : (Verify.consistency ((Problem.ofText "determinant of [1, 2], [3, 4]").solve {})).valid =
      true := by decide +kernel
  obtain ⟨report, made, isOn, -, explained, valid_iff⟩ :=
    explained_iff_valid_solution Verify.consistency {} _ visible
  have valid : report.verdict.valid = true := by
    rw [isOn.verdict, isOn.outcome]
    exact accepted
  obtain ⟨lines, some⟩ := Option.isSome_iff_exists.mp ((valid_iff Verify.rejectsRefusals_consistency).mpr valid)
  obtain ⟨solution, solved, rfl⟩ := explained lines some
  exact ⟨report, made, valid, solution, solved, some⟩

/-- A verifier that accepts everything accepts a problem that no solver covers: the verdict is valid, and
nothing is explained. -/
theorem valid_refusal_not_explained : ∃ report,
    ofText (fun _ => ⟨true, [], []⟩) {} "maximize x" = .ok report ∧ report.verdict.valid = true ∧
      report.outcome = .error .unhandled ∧ report.explanation = none := by
  have refused : (Problem.ofText "maximize x").solve {} = .error .unhandled := by decide +kernel
  have visible : Text.isBlankText "maximize x" = false := by decide +kernel
  obtain ⟨report, made, isOn⟩ := exists_isOn (fun _ => ⟨true, [], []⟩) {} visible
  have outcome : report.outcome = .error .unhandled := isOn.outcome.trans refused
  refine ⟨report, made, by rw [isOn.verdict], outcome, ?_⟩
  rw [isOn.explanation, outcome]
  rfl

end Report

end Tutor
