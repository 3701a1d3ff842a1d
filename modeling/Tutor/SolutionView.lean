import Tutor.Json.Basic
import Tutor.Json.Source
import Tutor.Solution

/-!
Outcomes as they are shown and kept: steps, the text of the answer, and the kind of refusal if there was
one. A view is written as a JSON object and read back from an object or from an array of its parts.
-/

set_option autoImplicit false
set_option relaxedAutoImplicit false

namespace Tutor

/-- An outcome as it is shown and kept: a refusal has one step, and its message is the answer. -/
structure SolutionView where
  steps : List String
  answer : String
  refusal : Option RefusalKind := none
  deriving DecidableEq, Repr

namespace SolutionView

def ofOutcome : Outcome → SolutionView
  | .ok solution => { steps := solution.steps, answer := solution.answer.text }
  | .error refusal =>
    { steps := ["Solver error"], answer := refusal.message, refusal := some refusal.kind }

/-- A shown solution in JSON; the kind of refusal is left out where there is none. -/
def toJson (view : SolutionView) : Json :=
  let refusal := match view.refusal with
    | some kind => [("error", Json.string kind.name)]
    | none => []
  .object ([("steps", .ofStrings view.steps), ("final_answer", .string view.answer)] ++ refusal)

def ofSource? (source : Json.Source) : Option SolutionView := do
  match ← source.parts? ["steps", "final_answer", "error"] 2 with
  | [some steps, some answer, refusal] =>
    return {
      steps := ← steps.texts?
      answer := ← answer.text?
      refusal := ← Json.Source.optional? (fun s => s.name?.bind RefusalKind.ofName?) refusal }
  | _ => none

end SolutionView

end Tutor
