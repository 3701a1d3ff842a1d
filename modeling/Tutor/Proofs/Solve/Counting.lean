import Mathlib.Tactic.SplitIfs
import Tutor.Proofs.Text.Lowercase
import Tutor.Proofs.Wording.Formula
import Tutor.Solve.Counting

/-!
What captures a problem about red cards. The experiment and its outcomes are chosen by the first keyword
that occurs anywhere in the text, also inside of other words. So the words of such a problem decide its
answer exactly if no toss of a coin is described and no part of any word is a keyword of a case that comes
before red cards.
-/

set_option autoImplicit false
set_option relaxedAutoImplicit false

namespace Tutor.Solve

open Text (contains lowerChars)
open Wording (Token coinTosses? tokens)

variable {text : String} {lowered : List Char} {word : String}

/-! ### Words -/

def words (cs : List Char) : List (List Char) :=
  (tokens cs).filterMap fun
    | .word letters => some (letters.map Char.toLower)
    | .symbol _ => none

private theorem contains_of_mem_words (final : 'ς' ∉ word.toList) (inner : 'σ' ∉ word.toList)
    (mem : word.toList ∈ words text.toList) : contains (lowerChars text.toList) word = true := by
  obtain ⟨token, cut, same⟩ := List.mem_filterMap.mp mem
  have wellFormed := Wording.wellFormed_tokens _ token cut
  cases token with
  | symbol c => cases same
  | word letters =>
    have ascii : ∀ c ∈ letters, c.toNat < 0x80 := by
      intro c hc
      rcases Bool.or_eq_true_iff.mp (wellFormed c hc) with upper | lower
      · have := Text.toNat_of_isUpper upper
        omega
      · have := Text.toNat_of_isLower lower
        omega
    obtain ⟨before, behind, split⟩ := Wording.chars_within cut
    have own : word.toList <:+: Text.lowerAfter before.reverse letters := by
      rw [Text.lowerAfter_ascii _ _ ascii, ← Option.some.inj same]
    apply Text.occurs_of_infix
    rw [← split]
    exact Text.infix_lowerChars final inner own behind

private theorem contains_of_start {part : String} (start : part.toList <+: word.toList)
    (h : contains lowered word = true) : contains lowered part = true :=
  Text.occurs_of_infix (start.isInfix.trans (Text.occurs_iff_infix.mp h))

/-! ### Experiments -/

def redCards : Solution where
  steps := ["Standard deck of 52 cards", "Favorable outcomes: 26 red cards", "Probability = 1/2"]
  answer := .probability (26 / 52)
  certificate := some (.probability 26 52)

private theorem count?_of_coinTosses {digits : List Char} (h : coinTosses? lowered = some digits) :
    count? lowered = .error .tooManyTosses ∨ ∃ tosses, count? lowered = .ok (some (coin lowered tosses)) := by
  unfold count?
  rw [h]
  dsimp only
  split
  · split_ifs
    · exact .inr ⟨_, rfl⟩
    · exact .inl rfl
  · exact .inl rfl

private theorem count?_of_noTosses (h : coinTosses? lowered = none) : count? lowered =
    if contains lowered "dice" ∨ contains lowered "die" then .ok (some (die lowered))
    else if contains lowered "card" ∨ contains lowered "deck" then .ok (some (card lowered))
    else .ok none := by
  simp [count?, h]

private theorem card_eq (lowered : List Char) : card lowered =
    if contains lowered "ace" then ⟨["Standard deck of 52 cards", "Favorable outcomes: 4 aces"], 4, 52⟩
    else if contains lowered "king" then ⟨["Standard deck of 52 cards", "Favorable outcomes: 4 kings"], 4, 52⟩
    else if contains lowered "red" then
      ⟨["Standard deck of 52 cards", "Favorable outcomes: 26 red cards"], 26, 52⟩
    else ⟨["Standard deck of 52 cards", "Assuming one specific card"], 1, 52⟩ := by
  simp only [card, firstCase, List.find?_cons, List.find?_nil, List.any_cons, List.any_nil, Bool.or_false]
  cases contains lowered "ace" <;> cases contains lowered "king" <;> cases contains lowered "red" <;> rfl

private theorem steps_of_solution_eq {count : Count} (h : count.solution = redCards) :
    count.steps = ["Standard deck of 52 cards", "Favorable outcomes: 26 red cards"] := by
  have steps := congrArg (fun s : Solution => s.steps.dropLast) h
  simpa [Count.solution, redCards] using steps

private theorem probability_of_count? {count : Count} (h : count? (lowerChars text.toList) = .ok (some count)) :
    probability text = .ok count.solution := by
  rw [probability, h]
  rfl

private theorem probability_ne_redCards {count : Count} (h : count? (lowerChars text.toList) = .ok (some count))
    (other : count.steps ≠ ["Standard deck of 52 cards", "Favorable outcomes: 26 red cards"]) :
    probability text ≠ .ok redCards := by
  rw [probability_of_count? h]
  exact fun same => other (steps_of_solution_eq (Except.ok.inj same))

private theorem steps_coin_ne (lowered : List Char) (tosses : Nat) :
    (coin lowered tosses).steps ≠ ["Standard deck of 52 cards", "Favorable outcomes: 26 red cards"] := by
  intro same
  have start := congrArg (fun steps => (steps.head?.map fun s => s.toList.head?)) same
  simp [coin] at start

private theorem steps_die_ne (lowered : List Char) :
    (die lowered).steps ≠ ["Standard deck of 52 cards", "Favorable outcomes: 26 red cards"] := by
  intro same
  have start := congrArg List.head? same
  simp [die] at start

/-- A problem with the words for a red card has the answer 26 of 52 exactly if nothing in its text captures it:
a description of tosses of a coin, or a keyword of a die, an ace or a king, be it a word or a part of one. -/
theorem redCards_counted_iff (red : "red".toList ∈ words text.toList)
    (deck : ∃ word ∈ ["card", "cards", "deck"], word.toList ∈ words text.toList) :
    probability text = .ok redCards ↔ coinTosses? (lowerChars text.toList) = none ∧
      ∀ keyword ∈ ["dice", "die", "ace", "king"], contains (lowerChars text.toList) keyword = false := by
  have red_occurs : contains (lowerChars text.toList) "red" = true :=
    contains_of_mem_words (by decide) (by decide) red
  have deck_occurs : contains (lowerChars text.toList) "card" = true ∨
      contains (lowerChars text.toList) "deck" = true := by
    obtain ⟨word, mem, found⟩ := deck
    have sigmas : ∀ word ∈ ["card", "cards", "deck"], 'ς' ∉ word.toList ∧ 'σ' ∉ word.toList := by decide
    have occurs := contains_of_mem_words (sigmas word mem).1 (sigmas word mem).2 found
    simp only [List.mem_cons, List.not_mem_nil, or_false] at mem
    rcases mem with rfl | rfl | rfl
    · exact .inl occurs
    · exact .inl (contains_of_start (by decide) occurs)
    · exact .inr occurs
  cases tossed : coinTosses? (lowerChars text.toList) with
  | some digits =>
    refine iff_of_false ?_ (by simp)
    rcases count?_of_coinTosses tossed with refused | ⟨tosses, counted⟩
    · rw [probability, refused]
      simp [bind, Except.bind]
    · exact probability_ne_redCards counted (steps_coin_ne _ tosses)
  | none =>
    have counted := count?_of_noTosses tossed
    by_cases dice : contains (lowerChars text.toList) "dice" = true ∨
        contains (lowerChars text.toList) "die" = true
    · rw [if_pos dice] at counted
      refine iff_of_false (probability_ne_redCards counted (steps_die_ne _)) ?_
      rcases dice with dice | dice <;> simp [dice]
    · rw [if_neg dice, if_pos deck_occurs, card_eq] at counted
      simp only [not_or, Bool.not_eq_true] at dice
      split_ifs at counted with ace king
      · exact iff_of_false (probability_ne_redCards counted (by simp)) (by simp [ace])
      · exact iff_of_false (probability_ne_redCards counted (by simp)) (by simp [king])
      · refine iff_of_true ?_ (by simp [dice, ace, king])
        rw [probability_of_count? counted]
        decide +kernel

/-- Keywords count in any letter case. -/
theorem redCards_counted_iff_capitals :
    "red".toList ∈ words "Drawing a RED one from 52 Cards: probability?".toList ∧
      "cards".toList ∈ words "Drawing a RED one from 52 Cards: probability?".toList ∧
      probability "Drawing a RED one from 52 Cards: probability?" = .ok redCards := by
  have red : "red".toList ∈ words "Drawing a RED one from 52 Cards: probability?".toList := by decide +kernel
  have cards : "cards".toList ∈ words "Drawing a RED one from 52 Cards: probability?".toList := by
    decide +kernel
  exact ⟨red, cards, (redCards_counted_iff red ⟨"cards", by decide, cards⟩).mpr (by decide +kernel)⟩

/-- A red card that is picked is counted as a king, for the end of the word says so. -/
theorem picked_red_card_counted_as_king :
    let text := "probability of picking a red card"
    ("red".toList ∈ words text.toList ∧ "card".toList ∈ words text.toList ∧
      ∀ word ∈ ["ace", "aces", "king", "kings", "coin", "coins", "die", "dice"],
        word.toList ∉ words text.toList) ∧
      probability text ≠ .ok redCards ∧ (probability text).map (·.certificate) =
        .ok (some (.probability 4 52)) := by
  decide +kernel

end Tutor.Solve
