import Tutor.Proofs.Text.Trim
import Tutor.Solve

/-!
Requests for derivatives and limits. The topic of a text is chosen by keywords, what it asks for by
markers, and the two vocabularies differ: the marker of a limit is a keyword of calculus, but of the
markers of a derivative only one is. A request reaches the solver for it exactly if a keyword of calculus
occurs; a derivative that is marked otherwise is taken for another problem.
-/

set_option autoImplicit false
set_option relaxedAutoImplicit false

namespace Tutor

open Solve (CalculusTask)
open Text (contains lowerChars)

variable {text : String} {words : List String}

namespace Topic

/-- One of some words occurs in a text, letter case aside. -/
def Mentions (words : List String) (text : String) : Prop :=
  ∃ word ∈ words, contains (lowerChars text.toList) word = true

instance : Decidable (Mentions words text) := inferInstanceAs (Decidable (∃ word ∈ words, _))

def calculusKeywords : List String := ["derivative", "limit", "maximize", "minimize"]

private theorem mentions_cons {word : String} : Mentions (word :: words) text ↔
    contains (lowerChars text.toList) word = true ∨ Mentions words text :=
  List.exists_mem_cons_iff _ _ _

theorem Mentions.mono {others : List String} (h : Mentions words text) (subset : words ⊆ others) :
    Mentions others text := by
  obtain ⟨word, mem, found⟩ := h
  exact ⟨word, subset mem, found⟩

private theorem mentions_trim (h : ∀ word ∈ words, word.toList ≠ [] ∧ word.toList.any Text.isBlank = false) :
    Mentions words (Text.trim text) ↔ Mentions words text := by
  refine exists_congr fun word => and_congr_right fun mem => ?_
  obtain ⟨nonempty, visible⟩ := h word mem
  have visible : ∀ c ∈ word.toList, Text.isBlank c = false := by simpa using visible
  rw [Text.trim, String.toList_ofList, Text.contains_lowerChars_trimChars nonempty visible]

private theorem ofText_eq (text : String) : ofText text =
    if Mentions calculusKeywords text then .calculus
    else if Mentions ["probability", "dice", "coin"] text then .probability
    else if Mentions ["matrix", "determinant"] text then .linearAlgebra
    else .algebra := by
  simp only [ofText, rules, calculusKeywords, Mentions, ← List.any_eq_true, List.find?_cons, List.find?_nil]
  cases ["derivative", "limit", "maximize", "minimize"].any (contains (lowerChars text.toList)) <;>
    cases ["probability", "dice", "coin"].any (contains (lowerChars text.toList)) <;>
    cases ["matrix", "determinant"].any (contains (lowerChars text.toList)) <;> rfl

private theorem ofText_eq_calculus_iff : ofText text = .calculus ↔ Mentions calculusKeywords text := by
  rw [ofText_eq]
  split_ifs <;> simp_all

private theorem ofText_trim (text : String) : ofText (Text.trim text) = ofText text := by
  simp only [ofText_eq, mentions_trim (by decide +kernel : ∀ word ∈ calculusKeywords, _),
    mentions_trim (by decide +kernel : ∀ word ∈ ["probability", "dice", "coin"], _),
    mentions_trim (by decide +kernel : ∀ word ∈ ["matrix", "determinant"], _)]

end Topic

theorem Solve.CalculusTask.ofText_eq (text : String) : CalculusTask.ofText text =
    if Topic.Mentions ["derivative", "differentiate", "dx/dx", "d/dx"] text then .derivative
    else if Topic.Mentions ["limit"] text then .limit
    else .unrecognized := by
  simp only [CalculusTask.ofText, Topic.Mentions, List.any_eq_true, List.mem_singleton, exists_eq_left]

theorem Solve.CalculusTask.ofText_trim (text : String) :
    CalculusTask.ofText (Text.trim text) = CalculusTask.ofText text := by
  simp only [CalculusTask.ofText_eq, Topic.mentions_trim (by decide +kernel : ∀ word ∈ ["limit"], _),
    Topic.mentions_trim (by decide +kernel : ∀ word ∈ ["derivative", "differentiate", "dx/dx", "d/dx"], _)]

/-- The text of a problem goes to the calculus solver, which takes it for the request that it is. -/
structure Problem.ReachesCalculus (problem : Problem) (task : CalculusTask) : Prop where
  topic : problem.topic = .calculus
  strategy : problem.topic.strategy = .differentiateOrLimit
  task : CalculusTask.ofText problem.text = task
  solve (settings : SolverSettings) : problem.solve settings = Solve.calculus problem.text settings

private theorem Problem.reachesCalculus_iff : (Problem.ofText text).ReachesCalculus (CalculusTask.ofText text) ↔
    Topic.Mentions Topic.calculusKeywords text := by
  have topic : (Problem.ofText text).topic = Topic.ofText text := by
    rw [Problem.ofText, Topic.ofText_trim]
  rw [← Topic.ofText_eq_calculus_iff, ← topic]
  constructor
  · exact fun reaches => reaches.topic
  · intro calculus
    refine ⟨calculus, by rw [calculus]; rfl, CalculusTask.ofText_trim text, fun settings => ?_⟩
    rw [Problem.solve, calculus]
    rfl

/-- A text that asks for a derivative or a limit is a problem of calculus, and reaches the solver for it, exactly
if it mentions a keyword of calculus. Every text that asks for a limit does; one that asks for a derivative
does not if no word marks it but `differentiate`, `dx/dx` or `d/dx`. -/
theorem calculus_request_reaches_solver_iff (asks : CalculusTask.ofText text ≠ .unrecognized) :
    (Topic.ofText text = .calculus ↔ Topic.Mentions Topic.calculusKeywords text) ∧
      ((Problem.ofText text).ReachesCalculus (CalculusTask.ofText text) ↔
        Topic.Mentions Topic.calculusKeywords text) ∧
      (CalculusTask.ofText text = .limit → Topic.Mentions Topic.calculusKeywords text) ∧
      (¬ Topic.Mentions Topic.calculusKeywords text →
        Topic.Mentions ["differentiate", "dx/dx", "d/dx"] text) := by
  refine ⟨Topic.ofText_eq_calculus_iff, Problem.reachesCalculus_iff, ?_, ?_⟩
  · intro limit
    rw [CalculusTask.ofText_eq] at limit
    split_ifs at limit with _ marked
    exact marked.mono (by decide)
  · intro unlisted
    rw [CalculusTask.ofText_eq] at asks
    split_ifs at asks with derivative limit
    · have unmarked : contains (lowerChars text.toList) "derivative" ≠ true := fun found =>
        unlisted ⟨_, by decide, found⟩
      exact (Topic.mentions_cons.mp derivative).resolve_left unmarked
    · exact absurd (limit.mono (by decide)) unlisted
    · exact absurd rfl asks

/-- Blanks and letter case aside, a limit is asked for in the words of the topic. -/
theorem calculus_request_reaches_solver_limit :
    CalculusTask.ofText " LIMIT of 1/x " = .limit ∧ Topic.ofText " LIMIT of 1/x " = .calculus ∧
      (Problem.ofText " LIMIT of 1/x ").ReachesCalculus .limit := by
  have asks : CalculusTask.ofText " LIMIT of 1/x " = .limit := by decide +kernel
  obtain ⟨topic, reaches, marked, -⟩ :=
    @calculus_request_reaches_solver_iff " LIMIT of 1/x " (by rw [asks]; decide)
  rw [asks] at reaches
  exact ⟨asks, topic.mpr (marked asks), reaches.mpr (marked asks)⟩

/-- A derivative that is asked for by the word `differentiate` is taken for an equation. -/
theorem differentiate_request_taken_for_equation :
    CalculusTask.ofText "differentiate x^2" = .derivative ∧
      Topic.ofText "differentiate x^2" = .algebra ∧
      (Problem.ofText "differentiate x^2").topic.strategy = .symbolicSolve := by
  decide +kernel

end Tutor
