import Tutor.Proofs.Wording.Decimal
import Tutor.Proofs.Wording.Formula

/-!
Clauses behind a formula. The variable of a differentiation is found behind the words that name it, and the
variable and the point of a limit around the arrow: nothing in the formula or in the words before it looks
like such a clause.
-/

set_option autoImplicit false
set_option relaxedAutoImplicit false

namespace Tutor.Wording

open Tutor.Expr (IsFormula IsRun isFormulaChar)
open Text (after? afterOneOf? dropBlanks dropBlanks_cons firstInLine? firstMatch? isBlank isLowered isWord
  spaced spaced_cons_cons)

variable {cs ds part : List Char} {e : Expr} {v : Char}

/-! ### Pairs that no formula holds -/

/-- Two characters that stand side by side in no formula: one of them is no character of formulas, or they
are letters that belong to no name. -/
def IsForeign (a b : Char) : Prop :=
  isFormulaChar a = false ∨ isFormulaChar b = false ∨ (a.isAlpha = true ∧ b.isAlpha = true) ∧ ¬ IsRun [a, b]

instance (a b : Char) : Decidable (IsForeign a b) :=
  inferInstanceAs (Decidable (_ ∨ _ ∨ (_ ∧ _) ∧ ¬ _))

theorem not_infix_of_isForeign {a b : Char} (foreign : IsForeign a b) (h : IsFormula cs e) :
    ¬ [a, b] <:+: cs := by
  intro part
  rcases foreign with no_char | no_char | ⟨⟨ha, hb⟩, no_run⟩
  · exact notMem_of_isFormula h no_char (part.mem (by simp))
  · exact notMem_of_isFormula h no_char (part.mem (by simp))
  · exact no_run (h.written.isRun (by simp [ha, hb]) part)

theorem not_infix_spaced {a b : Char} {pieces : List (List Char)} (visible : ' ' ∉ [a, b])
    (h : ∀ piece ∈ pieces, ¬ [a, b] <:+: piece) : ¬ [a, b] <:+: spaced pieces := by
  intro part
  obtain ⟨piece, mem, part⟩ := Text.infix_spaced part visible (List.cons_ne_nil _ _)
  exact h piece mem part

/-! ### The variable of a differentiation -/

private theorem respect?_eq_none (h : ∀ word ∈ ["with respect to", "wrt"], ¬ word.toList <+: cs)
    (before : Option Char) : respect? before cs = none := by
  have no_words : afterOneOf? ["with respect to", "wrt"] cs = none := by
    cases found : afterOneOf? ["with respect to", "wrt"] cs with
    | none => rfl
    | some rest =>
      obtain ⟨word, mem, start⟩ := Text.exists_prefix_of_afterOneOf? found
      exact absurd start (h word mem)
  unfold respect?
  split
  · rfl
  · rw [no_words]
    rfl

private theorem respect?_of_words (words : afterOneOf? ["with respect to", "wrt"] cs = some [' ', v])
    (hv : v.isLower = true) : respect? (some ' ') cs = some v := by
  have unknown : dropBlanks [' ', v] = [v] := dropBlanks_cons (Text.isBlank_of_isLower hv) []
  have edge : isWord ' ' = false := by decide +kernel
  have gap : isBlank ' ' = true := by decide
  simp [respect?, words, unknown, edge, gap, isLetter, hv]

theorem respectClause?_derivative (h : IsFormula cs e) (hv : v.isLower = true) :
    respectClause? (derivativeSentence cs v) = some v := by
  have split : derivativeSentence cs v =
      (spaced ["derivative".toList, "of".toList, cs] ++ [' ']) ++ ("with respect to".toList ++ [' ', v]) := by
    simp [derivativeSentence, spaced_cons_cons]
  have words :
      afterOneOf? ["with respect to", "wrt"] ("with respect to".toList ++ [' ', v]) = some [' ', v] := by
    rw [afterOneOf?, List.findSome?_cons, Text.after?_append]
  have foreign {b : Char} (visible : ' ' ∉ ['w', b]) (hb : IsForeign 'w' b) :
      ¬ ['w', b] <:+: spaced ["derivative".toList, "of".toList, cs] := by
    have idle {word : List Char} (hw : 'w' ∉ word) : ¬ ['w', b] <:+: word := fun part =>
      hw (part.mem List.mem_cons_self)
    apply not_infix_spaced visible
    simp only [List.forall_mem_cons, not_infix_of_isForeign hb h]
    exact ⟨idle (by decide), idle (by decide), not_false, by simp⟩
  rw [respectClause?, split, Text.firstMatch?_append]
  · rw [List.getLast?_concat]
    exact Text.firstMatch?_of_eq_some (respect?_of_words words hv)
  · intro s suffix nonempty before
    apply respect?_eq_none
    have begins : ∀ word ∈ ["with respect to", "wrt"],
        ['w', 'i'] <+: word.toList ∨ ['w', 'r'] <+: word.toList := by decide
    intro word mem start
    rcases begins word mem with pair | pair
    · have visible : ' ' ∉ ['w', 'i'] := by decide
      exact foreign visible (by decide) (Text.pair_within suffix nonempty (pair.trans start) visible)
    · have visible : ' ' ∉ ['w', 'r'] := by decide
      exact foreign visible (by decide) (Text.pair_within suffix nonempty (pair.trans start) visible)

/-! ### The point of a limit -/

def arrowPairs : List (Char × Char) := [('-', '>'), ('a', 'p'), ('t', 'e')]

private theorem start_of_mem_arrows : ∀ word ∈ arrows,
    (∃ pair ∈ arrowPairs, [pair.1, pair.2] <+: word.toList) ∨ ['→'] <+: word.toList := by decide

private theorem visible_of_mem_arrowPairs : ∀ pair ∈ arrowPairs, ' ' ∉ [pair.1, pair.2] := by decide

private theorem isForeign_of_mem_arrowPairs : ∀ pair ∈ arrowPairs, IsForeign pair.1 pair.2 := by decide

def limitSentence (cs : List Char) (v : Char) (t : Decimal) : List Char :=
  spaced ["limit".toList, "of".toList, cs, "as".toList, [v], "->".toList, t.chars]

def beforeUnknown (cs : List Char) : List Char := spaced [[], "of".toList, cs, "as".toList]

private theorem not_infix_beforeUnknown (h : IsFormula cs e) :
    ∀ pair ∈ arrowPairs, ¬ [pair.1, pair.2] <:+: beforeUnknown cs := by
  have idle : ∀ pair ∈ arrowPairs, ∀ word ∈ [[], "of".toList, "as".toList], ¬ [pair.1, pair.2] <:+: word := by
    decide
  intro pair mem
  have none_idle := idle pair mem
  apply not_infix_spaced (visible_of_mem_arrowPairs pair mem)
  simp only [List.forall_mem_cons, not_infix_of_isForeign (isForeign_of_mem_arrowPairs pair mem) h]
    at none_idle ⊢
  exact ⟨none_idle.1, none_idle.2.1, not_false, none_idle.2.2⟩

private theorem plain_beforeUnknown (h : IsFormula cs e) : Plain (beforeUnknown cs) := by
  apply plain_spaced
  simp only [List.forall_mem_cons, plain_of_isFormula h]
  exact ⟨plain_of_all (by decide), plain_of_all (by decide), trivial, plain_of_all (by decide), by simp⟩

def fromUnknown (v : Char) (t : Decimal) : List Char := v :: ' ' :: '-' :: '>' :: ' ' :: t.chars

private theorem afterOneOf?_arrows_eq_none (h : IsFormula cs e) (hv : v.isLower = true) (t : Decimal) {s : List Char}
    (suffix : s <:+ beforeUnknown cs ++ [' ']) : afterOneOf? arrows (s ++ fromUnknown v t) = none := by
  cases found : afterOneOf? arrows (s ++ fromUnknown v t) with
  | none => rfl
  | some rest =>
    obtain ⟨word, mem, start⟩ := Text.exists_prefix_of_afterOneOf? found
    exfalso
    rcases start_of_mem_arrows word mem with ⟨pair, mem, begins⟩ | begins
    · have together := begins.trans start
      have visible := visible_of_mem_arrowPairs pair mem
      cases s with
      | nil =>
        -- A blank stands behind the variable.
        obtain ⟨-, second⟩ := List.cons_prefix_cons.mp together
        obtain ⟨blank, -⟩ := List.cons_prefix_cons.mp second
        simp [blank] at visible
      | cons x s =>
        exact not_infix_beforeUnknown h pair mem
          (Text.pair_within suffix (List.cons_ne_nil x s) together visible)
    · have together := begins.trans start
      cases s with
      | nil =>
        obtain ⟨rfl, -⟩ := List.cons_prefix_cons.mp together
        cases hv
      | cons x s =>
        obtain ⟨rfl, -⟩ := List.cons_prefix_cons.mp together
        rcases List.mem_append.mp (suffix.mem List.mem_cons_self) with mem | blank
        · cases (plain_beforeUnknown h).lowered _ mem
        · cases List.mem_singleton.mp blank

private theorem lineFeed_notMem_beforeUnknown (h : IsFormula cs e) : '\n' ∉ beforeUnknown cs ++ [' '] := by
  have formula : ∀ c ∈ cs, (c != '\n') = true := fun c hc => by
    simpa using ne_of_mem_of_not_mem hc (notMem_of_isFormula h (by decide))
  have visible : ∀ c ∈ beforeUnknown cs, (c != '\n') = true := by
    apply Text.forall_mem_spaced (by decide)
    simp only [List.forall_mem_cons]
    exact ⟨by simp, List.all_eq_true.mp (by decide), formula, List.all_eq_true.mp (by decide), by simp⟩
  have words : '\n' ∉ beforeUnknown cs := fun mem => by cases visible _ mem
  simp [words]

private theorem approach?_eq_none (h : IsFormula cs e) (hv : v.isLower = true) (t : Decimal) {s : List Char}
    (suffix : s <:+ beforeUnknown cs ++ [' ']) (nonempty : s ≠ []) :
    approach? (s ++ fromUnknown v t) = none := by
  obtain ⟨x, tail, rfl⟩ := List.exists_cons_of_ne_nil nonempty
  have start : dropBlanks (fromUnknown v t) = fromUnknown v t :=
    dropBlanks_cons (Text.isBlank_of_isLower hv) _
  obtain ⟨left, part, same⟩ := Text.exists_suffix_of_dropBlanks tail start
  have none_here := afterOneOf?_arrows_eq_none h hv t ((part.trans (List.suffix_cons x tail)).trans suffix)
  rw [List.cons_append, approach?, same, none_here]
  split <;> rfl

private theorem approach?_fromUnknown (hv : v.isLower = true) (t : Decimal) :
    approach? (fromUnknown v t) = some (v, t.chars, fromUnknown v t, []) := by
  have arrow : afterOneOf? arrows (dropBlanks (' ' :: '-' :: '>' :: ' ' :: t.chars)) =
      some (' ' :: t.chars) := rfl
  have target : dropBlanks (' ' :: t.chars) = t.chars := t.dropBlanks_chars
  simp [fromUnknown, approach?, isLetter, hv, arrow, target, t.decimalText?_chars]

theorem limitClause?_limit (h : IsFormula cs e) (hv : v.isLower = true) (t : Decimal) :
    limitClause? (limitSentence cs v t) = some ⟨v, t.chars, limitBody cs⟩ := by
  have body : limitBody cs = "limit".toList ++ (beforeUnknown cs ++ [' ']) := by
    simp [limitBody, spaced_cons_cons, beforeUnknown]
  have split : limitSentence cs v t =
      "limit".toList ++ (beforeUnknown cs ++ [' ']) ++ fromUnknown v t := by
    simp [limitSentence, spaced_cons_cons, beforeUnknown, fromUnknown]
  have found : firstInLine? approach? ((beforeUnknown cs ++ [' ']) ++ fromUnknown v t) =
      some (v, t.chars, fromUnknown v t, []) := by
    rw [Text.firstInLine?_append (fun s suffix nonempty => approach?_eq_none h hv t suffix nonempty)
      (lineFeed_notMem_beforeUnknown h)]
    exact Text.firstInLine?_of_eq_some (approach?_fromUnknown hv t)
  have clause : firstMatch? (fun _ cs => do firstInLine? approach? (← after? "limit" cs)) none
      ("limit".toList ++ (beforeUnknown cs ++ [' ']) ++ fromUnknown v t) =
        some (v, t.chars, fromUnknown v t, []) := by
    apply Text.firstMatch?_of_eq_some
    rw [List.append_assoc, Text.after?_append]
    exact found
  rw [split, body]
  generalize "limit".toList ++ (beforeUnknown cs ++ [' ']) = before at clause ⊢
  rw [limitClause?, clause]
  simp [List.take_left']

private theorem plain_chars (t : Decimal) : Plain t.chars := by
  have each : ∀ c ∈ t.chars, isLowered c = true ∧ c ≠ '/' := by
    intro c hc
    rcases t.mem_chars hc with digit | sign
    · exact ⟨Text.isLowered_of_isDigit digit, by rintro rfl; cases digit⟩
    · simp only [List.mem_cons, List.not_mem_nil, or_false] at sign
      rcases sign with rfl | rfl | rfl <;> decide
  exact ⟨fun c hc => (each c hc).1, noDifferential_of_notMem fun slash => (each '/' slash).2 rfl⟩

theorem plain_limitSentence (h : IsFormula cs e) (hv : v.isLower = true) (t : Decimal) :
    Plain (limitSentence cs v t) := by
  apply plain_spaced
  simp only [List.forall_mem_cons, plain_of_isFormula h, plain_of_isLower hv, plain_chars t]
  exact ⟨plain_of_all (by decide), plain_of_all (by decide), trivial, plain_of_all (by decide), trivial,
    plain_of_all (by decide), trivial, by simp⟩

end Tutor.Wording
