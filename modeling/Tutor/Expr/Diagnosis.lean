import Tutor.Expr.Parser
import Tutor.Number.Fraction
import Tutor.Text.Blank

/-!
Telling the reader of a text where it stops being an expression: the number of the line, the line
itself, and a caret below the place.
-/

set_option autoImplicit false
set_option relaxedAutoImplicit false

namespace Tutor.Expr

open Number (naturalText)

def encodedLength (cs : List Char) : Nat := cs.foldr (fun c n => c.utf8Size + n) 0

def lastLine (cs : List Char) : List Char := (cs.reverse.takeWhile (· != '\n')).reverse

/-- A place in a text, by what stands before it and behind it: the line, counted from one, in which
it lies, the text of that line without blanks at its end, and a caret under the place, which counts
the encoded length of what stands before it. -/
def placeText (before after : List Char) (label : String) : String :=
  let line := lastLine before ++ after.takeWhile (· != '\n')
  "at line " ++ naturalText (before.count '\n' + 1) ++ ", in " ++ label ++ ":\n" ++
    String.ofList (Text.dropBlanksEnd line) ++ "\n" ++
    String.ofList (List.replicate (encodedLength (lastLine before)) ' ') ++ "^"

def beforeRest (text rest : List Char) : List Char := text.take (text.length - rest.length)

/-- The diagnosis of a failure to read `text`. Where no expression starts, the two attempts that came
last are named: to find a letter, and to find any alternative at all. -/
def ParseFailure.describe (text : String) : ParseFailure → String
  | .noExpression rest =>
    if text.isEmpty then "0: in Satisfy, got empty input\n\n1: in Alt, got empty input"
    else
      let before := beforeRest text.toList rest
      "0: " ++ placeText before rest "Satisfy" ++ "\n\n1: " ++ placeText before rest "Alt"
  | .leftOver rest => "0: " ++ placeText (beforeRest text.toList rest) rest "Eof"

def ParseFailure.message (text : String) (failure : ParseFailure) : String :=
  "cannot parse expression `" ++ text ++ "`: " ++ failure.describe text

end Tutor.Expr
