import Tutor.Feedback.Basic
import Tutor.Instant.Reader
import Tutor.SolutionView

/-!
Feedback records: what was asked, what was answered, and what the user says of it. A record is written
as a JSON object in one line. It is read back from an object, of which a missing comment or refusal
means that there is none, or from an array of the same parts.
-/

set_option autoImplicit false
set_option relaxedAutoImplicit false

namespace Tutor

structure FeedbackRecord where
  time : Instant
  question : String
  solution : SolutionView
  feedback : Feedback
  comment : Option String
  deriving DecidableEq

structure Remark where
  time : Instant
  question : String
  outcome : Outcome
  feedback : Feedback
  comment : Option String

namespace FeedbackRecord

def ofRemark (remark : Remark) : FeedbackRecord where
  time := remark.time
  question := remark.question
  solution := .ofOutcome remark.outcome
  feedback := remark.feedback
  comment := remark.comment

def toJson (record : FeedbackRecord) : Json :=
  .object [
    ("timestamp", .string record.time.text),
    ("question", .string record.question),
    ("solution", record.solution.toJson),
    ("feedback", .string record.feedback.name),
    ("comment", .ofOption .string record.comment)]

def line (record : FeedbackRecord) : String := record.toJson.compact

def ofSource? (source : Json.Source) : Option FeedbackRecord := do
  match ← source.parts? ["timestamp", "question", "solution", "feedback", "comment"] 5 with
  | [some time, some question, some solution, some feedback, comment] =>
    return {
      time := ← time.text?.bind Instant.ofText?
      question := ← question.text?
      solution := ← SolutionView.ofSource? solution
      feedback := ← feedback.name?.bind Feedback.ofName?
      comment := ← Json.Source.optional? Json.Source.text? comment }
  | _ => none

def ofLine? (line : List Char) : Option FeedbackRecord :=
  (Json.Source.ofText? line).bind ofSource?

end FeedbackRecord

end Tutor
