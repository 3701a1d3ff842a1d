import Tutor.Text.Blank
import Tutor.Text.Lowercase
import Tutor.Text.Search

/-!
Problems: the text without the blanks around it, the topic that its keywords select, and the strategy
that serves the topic.
-/

set_option autoImplicit false
set_option relaxedAutoImplicit false

namespace Tutor

inductive Topic where
  | algebra
  | calculus
  | probability
  | linearAlgebra
  deriving DecidableEq, Repr

inductive Strategy where
  | symbolicSolve
  | differentiateOrLimit
  | countingProbability
  | matrixOperations
  | general
  deriving DecidableEq, Repr

namespace Topic

def name : Topic → String
  | .algebra => "algebra"
  | .calculus => "calculus"
  | .probability => "probability"
  | .linearAlgebra => "linear_algebra"

/-- Keywords and the topic that any one of them selects; earlier rules come first. -/
def rules : List (List String × Topic) :=
  [(["derivative", "limit", "maximize", "minimize"], .calculus),
   (["probability", "dice", "coin"], .probability),
   (["matrix", "determinant"], .linearAlgebra)]

/-- The topic of a text: that of the first rule with a keyword in it, letter case aside; algebra if
there is none. Keywords count inside of other words too. -/
def ofText (text : String) : Topic :=
  let lowered := Text.lowerChars text.toList
  match rules.find? fun (keywords, _) => keywords.any (Text.contains lowered) with
  | some (_, topic) => topic
  | none => .algebra

def strategy : Topic → Strategy
  | .algebra => .symbolicSolve
  | .calculus => .differentiateOrLimit
  | .probability => .countingProbability
  | .linearAlgebra => .matrixOperations

end Topic

def Strategy.name : Strategy → String
  | .symbolicSolve => "symbolic_solve"
  | .differentiateOrLimit => "differentiate_or_limit"
  | .countingProbability => "counting_probability"
  | .matrixOperations => "matrix_operations"
  | .general => "general"

structure Problem where
  text : String
  topic : Topic
  deriving DecidableEq, Repr

/-- The problem that a text poses: its blanks at both ends are dropped, letter case is kept. -/
def Problem.ofText (text : String) : Problem :=
  let trimmed := Text.trim text
  ⟨trimmed, Topic.ofText trimmed⟩

example : (Problem.ofText "  LIMIT of x ").topic = .calculus := by decide +kernel
example : Topic.ofText "the matrix of a coin" = .probability := by decide +kernel

end Tutor
