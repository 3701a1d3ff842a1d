import Tutor.Text.Blank

/-!
Feedback: what a user says of a solution, as one of two words.
-/

set_option autoImplicit false
set_option relaxedAutoImplicit false

namespace Tutor

inductive Feedback where
  | correct
  | incorrect
  deriving DecidableEq, Repr

/-- A word that is no feedback, in lower case and without the blanks around it. -/
structure UnknownFeedback where
  word : String
  deriving DecidableEq, Repr

def UnknownFeedback.message (unknown : UnknownFeedback) : String :=
  "unknown feedback `" ++ unknown.word ++ "`, expected correct or incorrect"

namespace Feedback

def name : Feedback → String
  | .correct => "correct"
  | .incorrect => "incorrect"

def ofName? (word : String) : Option Feedback :=
  [correct, incorrect].find? fun feedback => feedback.name == word

/-- The feedback that a user writes; blanks around the word and the case of ASCII letters do not
matter. -/
def ofText (text : String) : Except UnknownFeedback Feedback :=
  let word := String.ofList ((Text.trimChars text.toList).map Char.toLower)
  match ofName? word with
  | some feedback => .ok feedback
  | none => .error ⟨word⟩

theorem ofName?_name (feedback : Feedback) : ofName? feedback.name = some feedback := by
  cases feedback <;> decide

example : (ofText " Correct\n").toOption = some .correct := by decide +kernel
example : (ofText "not correct").toOption = none := by decide +kernel

end Feedback

end Tutor
