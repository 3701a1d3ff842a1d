import Tutor.Proofs.Wording.Clause
import Tutor.Solve.Calculus

/-!
Sentences about expressions. From an equation, a derivative or a limit in words, the solvers take the
expressions that were written, the variable, and the point.
-/

set_option autoImplicit false
set_option relaxedAutoImplicit false

namespace Tutor.Solve

open Tutor.Expr (IsFormula exists_isFormula_text starred)
open Text (contains spaced_cons_cons)
open Wording (Decimal Plain derivativeSentence equationSentence formula limitSentence)

variable {cs : List Char} {e f : Expr} {v : Char}

/-! ### What the solvers read -/

private theorem parse_of_isFormula {s : String} (h : IsFormula s.toList e) : Expr.parse s = .ok e :=
  Expr.parse_of_written h.written

private theorem read_of_isFormula (h : IsFormula cs e) : Expr.read (String.ofList (cs.flatMap starred)) = .ok e := by
  have written : Expr.Written .sum (String.ofList (cs.flatMap starred)).toList e := by
    rw [String.toList_ofList]
    exact h.written.flatMap_starred
  rw [Expr.read, Expr.parse_of_written written]
  rfl

private theorem parse_equation {s t : String} (left : IsFormula s.toList e) (right : IsFormula t.toList f) :
    Expr.parse (formula ("solve " ++ s ++ " = " ++ t)) = .ok (.sub e f) := by
  have words : "solve " ++ s ++ " = " ++ t =
      String.ofList (equationSentence s.toList t.toList) := by
    apply String.toList_injective
    simp [equationSentence, spaced_cons_cons]
  have sides : Expr.Written .sum (s.toList.flatMap starred ++ '-' :: '(' :: (t.toList.flatMap starred ++ [')']))
      (.sub e f) :=
    left.written.flatMap_starred.subtracted right.written.flatMap_starred.bracketed.outer.outer.outer
  rw [words, Wording.formula_equation left right]
  apply Expr.parse_of_written
  rwa [String.toList_ofList]

/-! ### Derivatives -/

private theorem ofText_derivative (plain : Plain cs) (h : "derivative".toList <:+: cs) :
    CalculusTask.ofText (String.ofList cs) = .derivative := by
  have marked : contains cs "derivative" = true := Text.occurs_of_infix h
  simp [CalculusTask.ofText, Text.lowerChars_eq_self plain.lowered, marked]

private theorem calculus_derivative {s : String} (h : IsFormula s.toList f) (hv : v.isLower = true)
    (settings : SolverSettings) :
    (calculus ("derivative of " ++ s ++ " with respect to " ++ String.singleton v) settings).map
      (·.certificate) = .ok (some (.derivative f (String.singleton v))) := by
  have words : "derivative of " ++ s ++ " with respect to " ++ String.singleton v =
      String.ofList (derivativeSentence s.toList v) := by
    apply String.toList_injective
    simp [derivativeSentence, spaced_cons_cons]
  have plain := Wording.plain_derivativeSentence h hv
  have marked : "derivative".toList <:+: derivativeSentence s.toList v :=
    List.prefix_append "derivative".toList _ |>.isInfix
  have read := read_of_isFormula h
  rw [words, calculus, ofText_derivative plain marked]
  simp only [derivative, String.toList_ofList, Text.lowerChars_eq_self plain.lowered,
    Wording.respectClause?_derivative h hv, Wording.formula_derivative h hv, read]
  rfl

/-! ### Limits -/

private theorem ofText_limit (plain : Plain cs) (h : "limit".toList <:+: cs)
    (foreign : ∀ c, c.isLower = true → ¬ ['d', c] <:+: cs) :
    CalculusTask.ofText (String.ofList cs) = .limit := by
  have unmarked (marker : String) (c : Char) (hc : c.isLower = true) (pair : ['d', c] <:+: marker.toList) :
      contains cs marker = false := Text.occurs_eq_false fun part => foreign c hc (pair.trans part)
  have marked : contains cs "limit" = true := Text.occurs_of_infix h
  simp [CalculusTask.ofText, Text.lowerChars_eq_self plain.lowered, marked,
    unmarked "derivative" 'e' (by decide) (by decide),
    unmarked "differentiate" 'i' (by decide) (by decide),
    unmarked "dx/dx" 'x' (by decide) (by decide),
    unmarked "d/dx" 'x' (by decide) (by decide)]

private theorem not_infix_limitSentence (h : IsFormula cs f) (v : Char) (t : Decimal) {c : Char}
    (hc : c.isLower = true) : ¬ ['d', c] <:+: limitSentence cs v t := by
  have idle {word : List Char} (hd : 'd' ∉ word) : ¬ ['d', c] <:+: word := fun part =>
    hd (part.mem List.mem_cons_self)
  have unknown : ¬ ['d', c] <:+: [v] := fun part => by
    have := part.length_le
    simp at this
  have formula : ¬ ['d', c] <:+: cs :=
    Wording.not_infix_of_isForeign
      (.inr (.inr ⟨⟨by decide, Text.isAlpha_of_isLower hc⟩, Wording.not_isRun_d c⟩)) h
  have target : 'd' ∉ t.chars := fun mem => by
    rcases t.mem_chars mem with digit | sign
    · cases digit
    · revert sign
      decide
  apply Wording.not_infix_spaced
  · simp only [List.mem_cons, List.not_mem_nil, or_false, not_or]
    exact ⟨by decide, by rintro rfl; cases hc⟩
  · simp only [List.forall_mem_cons]
    exact ⟨idle (by decide), idle (by decide), formula, idle (by decide), unknown, idle (by decide),
      idle target, by simp⟩

private theorem calculus_limit {s : String} (h : IsFormula s.toList f) (hv : v.isLower = true) (t : Decimal)
    (settings : SolverSettings) :
    (calculus ("limit of " ++ s ++ " as " ++ String.singleton v ++ " -> " ++ t.text) settings).map
      (·.certificate) = (orRefuse (f.limit (String.singleton v) t.value settings.depth)).map fun _ =>
        some (.limit f (String.singleton v) t.value) := by
  have words : "limit of " ++ s ++ " as " ++ String.singleton v ++ " -> " ++ t.text =
      String.ofList (limitSentence s.toList v t) := by
    apply String.toList_injective
    simp [limitSentence, spaced_cons_cons, Decimal.text]
  have plain := Wording.plain_limitSentence h hv t
  have marked : "limit".toList <:+: limitSentence s.toList v t :=
    List.prefix_append "limit".toList _ |>.isInfix
  have read := read_of_isFormula h
  rw [words, calculus, ofText_limit plain marked fun c hc => not_infix_limitSentence h v t hc]
  simp only [limit, String.toList_ofList, Text.lowerChars_eq_self plain.lowered,
    Wording.limitClause?_limit h hv t, t.readPoint?_chars, pure_bind, Wording.formula_limit h, read,
    orRefuse_ok]
  have next {α : Type} (g : Expr → Except Refusal α) : (.ok f >>= g) = g f := rfl
  rw [next]
  cases f.limit (String.singleton v) t.value settings.depth <;> rfl

/-- The solvers take from a sentence the expressions that were written in it. An equation is read as the
difference of its sides. A derivative is certified for the function and the variable of the sentence, and a
limit, where there is one, for its function, its variable and its point. -/
theorem sentence_expressions_kept {e₁ e₂ e : Expr} (h₁ : e₁.LowercaseVariables) (h₂ : e₂.LowercaseVariables)
    (h : e.LowercaseVariables) {v : Char} (hv : v.isLower = true) (t : Decimal) (settings : SolverSettings) :
    (∃ f₁ f₂, Expr.parse e₁.text = .ok f₁ ∧ Expr.parse e₂.text = .ok f₂ ∧
      Expr.parse (formula ("solve " ++ e₁.text ++ " = " ++ e₂.text)) = .ok (.sub f₁ f₂)) ∧
    ∃ f, Expr.parse e.text = .ok f ∧
      (calculus ("derivative of " ++ e.text ++ " with respect to " ++ String.singleton v) settings).map
        (·.certificate) = .ok (some (.derivative f (String.singleton v))) ∧
      (calculus ("limit of " ++ e.text ++ " as " ++ String.singleton v ++ " -> " ++ t.text) settings).map
        (·.certificate) = (orRefuse (f.limit (String.singleton v) t.value settings.depth)).map fun _ =>
          some (.limit f (String.singleton v) t.value) := by
  obtain ⟨f₁, written₁⟩ := exists_isFormula_text h₁
  obtain ⟨f₂, written₂⟩ := exists_isFormula_text h₂
  obtain ⟨f, written⟩ := exists_isFormula_text h
  exact ⟨⟨f₁, f₂, parse_of_isFormula written₁, parse_of_isFormula written₂,
    parse_equation written₁ written₂⟩, f, parse_of_isFormula written,
    calculus_derivative written hv settings, calculus_limit written hv t settings⟩

/-- Letters that also begin words of the sentences, and a negative number with a fraction. -/
theorem sentence_expressions_kept_letter_d :
    let e₁ : Expr := .pow (.sin (.var "d")) (.const 2)
    let e₂ : Expr := .const (-1 / 2)
    let e : Expr := .div (.var "d") (.mul (.var "d") (.var "w"))
    let t : Decimal := ⟨.minus, ['1'], some ['5', '0'], by simp, by simp, by simp, by simp⟩
    (e₁.text = "sin(d)^2" ∧ e₂.text = "-1/2" ∧ e.text = "d/(d*w)" ∧ t.text = "-1.50" ∧ t.value = -3 / 2) ∧
      (∃ f₁ f₂, Expr.parse e₁.text = .ok f₁ ∧ Expr.parse e₂.text = .ok f₂ ∧
        Expr.parse (formula ("solve " ++ e₁.text ++ " = " ++ e₂.text)) = .ok (.sub f₁ f₂)) ∧
      ∃ f, Expr.parse e.text = .ok f ∧
        (calculus ("derivative of " ++ e.text ++ " with respect to " ++ String.singleton 'd') {}).map
          (·.certificate) = .ok (some (.derivative f (String.singleton 'd'))) ∧
        (calculus ("limit of " ++ e.text ++ " as " ++ String.singleton 'd' ++ " -> " ++ t.text) {}).map
          (·.certificate) = (orRefuse (f.limit (String.singleton 'd') t.value 4)).map fun _ =>
            some (.limit f (String.singleton 'd') t.value) := by
  intro e₁ e₂ e t
  have d : Expr.LowercaseVariables (.var "d") := ⟨'d', by decide, rfl⟩
  have w : Expr.LowercaseVariables (.var "w") := ⟨'w', by decide, rfl⟩
  have lowercase₁ : e₁.LowercaseVariables := ⟨d, trivial⟩
  have lowercase₂ : e₂.LowercaseVariables := trivial
  have lowercase : e.LowercaseVariables := ⟨d, d, w⟩
  refine ⟨⟨by decide +kernel, by decide +kernel, by decide +kernel, by decide, by decide +kernel⟩, ?_⟩
  exact sentence_expressions_kept lowercase₁ lowercase₂ lowercase (v := 'd') (by decide) t {}

end Tutor.Solve
