import Tutor.Feedback.Record
import Tutor.Text.Search

/-!
The feedback log: a text to which records are appended, one in a line. Lines that keep no record are
passed over when the log is read, so that they do no harm to the others.
-/

set_option autoImplicit false
set_option relaxedAutoImplicit false

namespace Tutor

/-- The contents of a feedback log. A log that was never written is the empty one. -/
structure FeedbackLog where
  text : String
  deriving DecidableEq

namespace FeedbackLog

def empty : FeedbackLog := ⟨""⟩

def entryText (record : FeedbackRecord) : String := record.line ++ "\n"

def append (log : FeedbackLog) (record : FeedbackRecord) : FeedbackLog :=
  ⟨log.text ++ entryText record⟩

def record (log : FeedbackLog) (remark : Remark) : FeedbackLog := log.append (.ofRemark remark)

/-- The lines of a log; an empty one is behind the last line feed. -/
def lines (log : FeedbackLog) : List (List Char) := Text.pieces '\n' log.text.toList

def entries (log : FeedbackLog) : List FeedbackRecord := log.lines.filterMap FeedbackRecord.ofLine?

end FeedbackLog

end Tutor
