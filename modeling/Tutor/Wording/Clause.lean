import Tutor.Number.Literal
import Tutor.Text.Blank
import Tutor.Text.Lowercase
import Tutor.Text.Search
import Tutor.Text.WordRanges
import Tutor.Wording.Formula

/-!
Clauses that say more than the formula: which limit is meant, by what to differentiate, how often a
coin is tossed, and which rows a matrix has.
-/

set_option autoImplicit false
set_option relaxedAutoImplicit false

namespace Tutor.Wording

open Text (isBlank isWord isDigit dropBlanks after? afterOneOf? firstMatch? firstInLine?)

/-- What the clause of a limit says: the variable, the text of the point it approaches, and the text
without the clause. -/
structure LimitClause where
  unknown : Char
  target : List Char
  body : List Char
  deriving DecidableEq, Repr

def arrows : List String := ["->", "→", "approaches", "tends to"]

def digits? (cs : List Char) : Option (List Char × List Char) :=
  let run := cs.takeWhile isDigit
  if run.isEmpty then none else some (run, cs.dropWhile isDigit)

def splitSign : List Char → List Char × List Char
  | '-' :: rest => (['-'], rest)
  | '+' :: rest => (['+'], rest)
  | cs => ([], cs)

def decimalText? (cs : List Char) : Option (List Char × List Char) := do
  let (sign, unsigned) := splitSign cs
  let (whole, rest) ← digits? unsigned
  match rest with
  | '.' :: behind =>
    match digits? behind with
    | some (frac, final) => return (sign ++ whole ++ '.' :: frac, final)
    | none => return (sign ++ whole, rest)
  | _ => return (sign ++ whole, rest)

/-- A variable, an arrow and a number that start a text; with them comes the text from the variable
on. -/
def approach? : List Char → Option (Char × List Char × List Char × List Char)
  | [] => none
  | v :: rest =>
    if isLetter v then do
      let behind ← afterOneOf? arrows (dropBlanks rest)
      let (target, final) ← decimalText? (dropBlanks behind)
      return (v, target, v :: rest, final)
    else none

/-- The first clause of a limit: behind the word `limit`, in the same line, a variable that approaches
a number. -/
def limitClause? (lowered : List Char) : Option LimitClause := do
  let (unknown, target, fromUnknown, final) ←
    firstMatch? (fun _ cs => do firstInLine? approach? (← after? "limit" cs)) none lowered
  return ⟨unknown, target, lowered.take (lowered.length - fromUnknown.length) ++ final⟩

/-- The point that the text of a decimal names, blanks around it aside. -/
def readPoint? (target : List Char) : Option Rat := Number.readSignedDecimal? (Text.trimChars target)

/-- The variable of a clause `with respect to x` or `wrt x` that starts a text and stands there as whole
words. -/
def respect? (before : Option Char) (cs : List Char) : Option Char := do
  if before.any isWord then none
  else
    let behind ← afterOneOf? ["with respect to", "wrt"] cs
    match behind, dropBlanks behind with
    | gap :: _, v :: rest =>
      if isBlank gap && isLetter v && !rest.head?.any isWord then some v else none
    | _, _ => none

def respectClause? (lowered : List Char) : Option Char := firstMatch? respect? none lowered

/-- A number of tosses that starts a text: digits before a word for repetition. -/
def tosses? (cs : List Char) : Option (List Char) := do
  let (run, rest) ← digits? cs
  match afterOneOf? ["times", "tosses", "flips"] (dropBlanks rest) with
  | some _ => return run
  | none => none

/-- How often a coin is tossed: the digits behind the word `coin`, in the same line. -/
def coinTosses? (lowered : List Char) : Option (List Char) :=
  firstMatch? (fun _ cs => do firstInLine? tosses? (← after? "coin" cs)) none lowered

def isRowChar (c : Char) : Bool := c == '-' || c.isDigit || c == ',' || isBlank c

/-- The insides of all brackets that hold row characters only, and at least one. -/
def bracketed : List Char → List (List Char)
  | [] => []
  | c :: rest =>
    let body := rest.takeWhile isRowChar
    if c = '[' && !body.isEmpty && (rest.dropWhile isRowChar).head? == some ']' then
      body :: bracketed rest
    else bracketed rest

abbrev BadEntry := List Char × Number.LiteralError

def readEntry (entry : List Char) : Except BadEntry Int :=
  let trimmed := Text.trimChars entry
  (Number.readInteger trimmed).mapError (trimmed, ·)

def matrixRows (cs : List Char) : Except BadEntry (List (List Int)) :=
  (bracketed cs).mapM fun body => (Text.pieces ',' body).mapM readEntry

example : coinTosses? "a coin is flipped 12 times".toList = some ['1', '2'] := by decide +kernel
example : respectClause? "x wrt  y".toList = some 'y' := by decide +kernel
example : (limitClause? "limit of x^2 as x -> -1.5.".toList).map LimitClause.body =
    some "limit of x^2 as .".toList := by decide +kernel

end Tutor.Wording
