import Tutor.Text.Blank
import Tutor.Text.Lowercase
import Tutor.Text.Search
import Tutor.Text.WordRanges

/-!
From the wording of a problem to its formula. The text is put in lower case and cut into words and
single symbols. Filler phrases and clauses that name the unknown go, if they stand there as whole
words; blanks and punctuation go; what is left is written without gaps, a caret as two stars, and an
equation as the difference of its sides.
-/

set_option autoImplicit false
set_option relaxedAutoImplicit false

namespace Tutor.Wording

open Text (isBlank isWord)

inductive Token where
  | word (letters : List Char)
  | symbol (c : Char)
  deriving DecidableEq, Repr

def isLetter (c : Char) : Bool := c.isLower

def tokens : List Char → List Token
  | [] => []
  | c :: rest =>
    if c.isAlpha then
      match tokens rest with
      | .word letters :: others => .word (c :: letters) :: others
      | others => .word [c] :: others
    else .symbol c :: tokens rest

/-- A differential quotient that starts a text, such as `d/dx` or `dy/dx`: what follows it. It stands
alone, not as part of a word. -/
def differential? (before : Option Char) (cs : List Char) : Option (List Char) :=
  if before.any isWord then none
  else
    let bottom? : List Char → Option (List Char)
      | '/' :: 'd' :: v :: rest => if isLetter v && !rest.head?.any isWord then some rest else none
      | _ => none
    match cs with
    | 'd' :: u :: rest => if isLetter u then bottom? rest else bottom? (u :: rest)
    | _ => none

/-- Replaces every differential quotient by a blank. The count is of characters that belong to the
quotient found last. -/
def dropDifferentials (before : Option Char) (skip : Nat) : List Char → List Char
  | [] => []
  | c :: rest =>
    match skip with
    | n + 1 => dropDifferentials (some c) n rest
    | 0 =>
      match differential? before (c :: rest) with
      | some after => ' ' :: dropDifferentials (some c) (rest.length - after.length) rest
      | none => c :: dropDifferentials (some c) 0 rest

/-- Word sequences that belong to no formula. -/
def fillers : List (List String) :=
  [["what", "is"], ["find"], ["the"], ["solve"], ["derivative"], ["differentiate"], ["of"], ["limit"],
   ["as"], ["approaches"], ["calculate"], ["compute"], ["evaluate"]]

/-- Word sequences that name the unknown, by the single letter behind them. -/
def unknownClauses : List (List String) := [["with", "respect", "to"], ["wrt"], ["for"]]

def Token.isGap : Token → Bool
  | .symbol c => isBlank c
  | .word _ => false

def afterPhrase? : List String → List Token → Option (List Token)
  | [], ts => some ts
  | w :: ws, .word letters :: ts =>
    if letters = w.toList then
      if ws.isEmpty then some ts else afterPhrase? ws (ts.dropWhile Token.isGap)
    else none
  | _ :: _, _ => none

def startsClause (clause : List String) (ts : List Token) : Bool :=
  match afterPhrase? clause ts with
  | some rest =>
    match rest.dropWhile Token.isGap with
    | .word [_] :: _ => true
    | _ => false
  | none => false

/-- The number of words at the start of a text that belong to no formula: those of a clause naming the
unknown, otherwise those of the longest filler. -/
def idleWords (ts : List Token) : Nat :=
  match unknownClauses.find? fun clause => startsClause clause ts with
  | some clause => clause.length + 1
  | none =>
    (fillers.filter fun filler => (afterPhrase? filler ts).isSome).foldl (fun n f => max n f.length) 0

/-- Drops idle words; `idle` of them are still to come. -/
def dropIdle (idle : Nat) : List Token → List Token
  | [] => []
  | .symbol c :: rest => .symbol c :: dropIdle idle rest
  | .word letters :: rest =>
    match idle with
    | n + 1 => dropIdle n rest
    | 0 =>
      match idleWords (.word letters :: rest) with
      | 0 => .word letters :: dropIdle 0 rest
      | n + 1 => dropIdle n rest

def punctuation : List Char := ['?', '!', ':', ';', ',']

/-- What a token contributes to the formula. A full stop counts only in front of a digit, and a caret
is written as two stars. -/
def tokenText (next : Option Token) : Token → List Char
  | .word letters => letters
  | .symbol c =>
    if isBlank c || punctuation.contains c then []
    else if c = '.' then
      match next with
      | some (.symbol d) => if d.isDigit then ['.'] else []
      | _ => []
    else if c = '^' then ['*', '*']
    else [c]

def joinTokens : List Token → List Char
  | [] => []
  | t :: rest => tokenText rest.head? t ++ joinTokens rest

/-- Whether a text is the left side of a definition, such as `f(x)`. -/
def isDefinition : List Char → Bool
  | [f, '(', v, ')'] => isLetter f && isLetter v
  | _ => false

/-- An equation as the difference of its sides; a definition, and an equation with an empty side, as
the other side. -/
def zeroForm (cs : List Char) : List Char :=
  let left := cs.takeWhile (· != '=')
  match cs.dropWhile (· != '=') with
  | [] => cs
  | _ :: right =>
    if left.isEmpty || isDefinition left then right
    else if right.isEmpty then left
    else left ++ ['-', '('] ++ right ++ [')']

def formula (text : String) : String :=
  let lowered := Text.lowerChars text.toList
  String.ofList (zeroForm (joinTokens (dropIdle 0 (tokens (dropDifferentials none 0 lowered)))))

example : formula "What is d/dx of x^2?" = "x**2" := by decide +kernel
example : formula "Solve f(x) = 2x for x." = "2x" := by decide +kernel
example : formula "solve basis + 2 = .5" = "basis+2-(.5)" := by decide +kernel

end Tutor.Wording
