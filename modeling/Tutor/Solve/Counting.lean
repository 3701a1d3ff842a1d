import Tutor.Solution
import Tutor.Wording.Clause

/-!
Probabilities by counting outcomes: tosses of a coin, a die, a deck of cards.
-/

set_option autoImplicit false
set_option relaxedAutoImplicit false

namespace Tutor.Solve

open Number (naturalText fractionText)
open Text (contains lowerChars)

/-- The outcomes of an experiment: how many there are, how many are favorable, and what was
understood. -/
structure Count where
  steps : List String
  favorable : Nat
  total : Nat
  deriving DecidableEq, Repr

def maxTosses : Nat := 10000

/-- The first case with a keyword in the text; each case has a step and a number of outcomes. -/
def firstCase (lowered : List Char) (cases : List (List String × String × Nat))
    (otherwise : String × Nat) : String × Nat :=
  match cases.find? fun (keywords, _) => keywords.any (contains lowered) with
  | some (_, found) => found
  | none => otherwise

def coin (lowered : List Char) (tosses : Nat) : Count :=
  let (step, favorable) := firstCase lowered
    [(["all heads", "only heads"], "Favorable outcome: all heads", 1),
     (["all tails", "only tails"], "Favorable outcome: all tails", 1)]
    ("Assuming one specific outcome", 1)
  ⟨["Coin tossed " ++ naturalText tosses ++ " times", step], favorable, Nat.pow 2 tosses⟩

def die (lowered : List Char) : Count :=
  let (step, favorable) := firstCase lowered
    [(["6"], "Favorable outcome: getting 6", 1),
     (["even"], "Favorable outcomes: 2,4,6", 3),
     (["odd"], "Favorable outcomes: 1,3,5", 3)]
    ("Assuming one specific outcome", 1)
  ⟨["Single die rolled", step], favorable, 6⟩

def card (lowered : List Char) : Count :=
  let (step, favorable) := firstCase lowered
    [(["ace"], "Favorable outcomes: 4 aces", 4),
     (["king"], "Favorable outcomes: 4 kings", 4),
     (["red"], "Favorable outcomes: 26 red cards", 26)]
    ("Assuming one specific card", 1)
  ⟨["Standard deck of 52 cards", step], favorable, 52⟩

def asciiNumber? (digits : List Char) : Option Nat :=
  if digits.all Char.isDigit then some (Number.digitsValue digits) else none

def count? (lowered : List Char) : Except Refusal (Option Count) :=
  match Wording.coinTosses? lowered with
  | some digits =>
    match asciiNumber? digits with
    | some tosses =>
      if tosses ≤ maxTosses then .ok (some (coin lowered tosses)) else .error .tooManyTosses
    | none => .error .tooManyTosses
  | none =>
    if ["dice", "die"].any (contains lowered) then .ok (some (die lowered))
    else if ["card", "deck"].any (contains lowered) then .ok (some (card lowered))
    else .ok none

def Count.solution (count : Count) : Solution :=
  let probability := mkRat count.favorable count.total
  { steps := count.steps ++ ["Probability = " ++ fractionText probability]
    answer := .probability probability
    certificate := some (.probability count.favorable count.total) }

def probability (text : String) : Outcome := do
  match ← count? (lowerChars text.toList) with
  | some count => return count.solution
  | none => return { steps := ["Could not recognize probability type"], answer := .notAvailable }

end Tutor.Solve
