import Tutor.Proofs.Expr.Grammar
import Tutor.Proofs.Wording.Respect
import Tutor.Solve.Calculus

/-!
The variable of a derivative. A clause that names it never reaches the formula, whatever blanks separate its
words. The derivative is by that variable only if the solver finds the clause as well, and otherwise by the
unknown of the settings.
-/

set_option autoImplicit false
set_option relaxedAutoImplicit false

namespace Tutor.Solve

open Text (firstMatch? isWord lowerChars)
open Wording (ClauseAt RespectClause differential? formula remains respect? respectClause? zeroForm)

variable {text : String} {front behind : List Char}

private theorem respectClause?_of_sole (clause : RespectClause)
    (sole : ∀ f r, f ++ r = front ++ (clause.chars ++ behind) → ClauseAt f r → f = front) :
    respectClause? (front ++ (clause.chars ++ behind)) =
      if clause.SingleSpaced ∧ front.getLast?.any isWord = false ∧ behind.head?.any isWord = false then
        some clause.unknown
      else none := by
  have place : firstMatch? respect? none (front ++ (clause.chars ++ behind)) =
      respect? (front.getLast?.or none) (clause.chars ++ behind) := by
    apply Text.firstMatch?_of_sole
    intro f r v whole found
    rw [Option.or_none] at found
    exact sole f r whole (Wording.clauseAt_of_respect? found)
  rw [respectClause?, place, Option.or_none, clause.respect?_chars]

private theorem eq_of_append {whole f r : List Char} (h : ∀ n ≤ whole.length, ClauseAt (whole.take n) (whole.drop n) →
    whole.take n = front) (split : f ++ r = whole) (here : ClauseAt f r) : f = front := by
  subst split
  have found := h f.length (by simp)
  simp only [List.take_left, List.drop_left] at found
  exact found here

private theorem read_cube : Expr.read "t**3" = .ok (.pow (.var "t") (.const 3)) := by
  have exponent : Expr.Written .primary ['3'] (.const 3) := by
    have value : Number.decimalValue ['3'] [] = 3 := by decide +kernel
    rw [← value]
    exact .number (List.cons_ne_nil _ _) (List.forall_mem_singleton.mpr (by decide))
  have power : Expr.Written .power "t**3".toList (.pow (.var "t") (.const 3)) :=
    .starred (.letter (by decide)) exponent.outer.outer
  rw [Expr.read, Expr.parse_of_written power.outer.outer.outer]
  rfl

/-- A clause with any blanks is dropped from the formula. The derivative is by its variable if single blanks
separate its first words and no word character touches it, and by the unknown of the settings if not. -/
theorem derivative_of_respectClause (clause : RespectClause)
    (asked : CalculusTask.ofText text = .derivative)
    (written : lowerChars text.toList = front ++ (clause.chars ++ behind))
    (starts : front.getLast?.any Char.isAlpha = false) (ends : behind.head?.any Char.isAlpha = false)
    (sole : ∀ f r, f ++ r = front ++ (clause.chars ++ behind) → ClauseAt f r → f = front)
    (settings : SolverSettings) :
    (differential? none (clause.unknown :: behind) = none →
      formula text = String.ofList (zeroForm (remains none front ++ remains (some clause.unknown) behind))) ∧
    calculus text settings =
      let unknown :=
        if clause.SingleSpaced ∧ front.getLast?.any isWord = false ∧ behind.head?.any isWord = false then
          String.singleton clause.unknown
        else settings.unknown
      (orRefuse (Expr.read (formula text))).map fun function =>
        { steps := ["Identified function", "Applied differentiation"]
          answer := .value (function.derivative unknown)
          certificate := some (.derivative function unknown) } := by
  constructor
  · intro lone
    rw [Wording.formula_eq_remains, written, clause.remains_append starts ends lone]
  · rw [calculus, asked]
    simp only [derivative, written, respectClause?_of_sole clause sole]
    cases Expr.read (formula text) with
    | error failure => rfl
    | ok function =>
      split_ifs <;> rfl

/-- A clause in capitals, with a tab in front of its variable. -/
theorem derivative_of_respectClause_tab :
    let clause : RespectClause :=
      ⟨[' '], [' '], ['\t'], 't', .singleton (by decide), .singleton (by decide), .singleton (by decide),
        by decide⟩
    let text := "Derivative of t^3 WITH RESPECT TO\tT."
    let front := "derivative of t^3 ".toList
    (lowerChars text.toList = front ++ (clause.chars ++ ['.']) ∧
      ∀ f r, f ++ r = front ++ (clause.chars ++ ['.']) → ClauseAt f r → f = front) ∧
      formula text = "t**3" ∧
      (calculus text {}).map (·.certificate) = .ok (some (.derivative (.pow (.var "t") (.const 3)) "t")) := by
  intro clause text front
  have written : lowerChars text.toList = front ++ (clause.chars ++ ['.']) := by decide +kernel
  have sole : ∀ f r, f ++ r = front ++ (clause.chars ++ ['.']) → ClauseAt f r → f = front :=
    fun f r => eq_of_append (by decide +kernel)
  obtain ⟨dropped, answered⟩ := derivative_of_respectClause clause (by decide +kernel) written
    (by decide +kernel) (by decide +kernel) sole {}
  have formula : formula text = "t**3" := (dropped (by decide +kernel)).trans (by decide +kernel)
  refine ⟨⟨written, sole⟩, formula, ?_⟩
  rw [answered, formula, read_cube]
  decide +kernel

/-- With two blanks between its words a clause is dropped from the formula, and ignored all the same: the power
of `t` is taken for a constant. -/
theorem derivative_of_respectClause_ignored :
    let clause : RespectClause :=
      ⟨[' ', ' '], [' '], [' '], 't', .cons (by decide) (.singleton (by decide)), .singleton (by decide),
        .singleton (by decide), by decide⟩
    let text := "derivative of t^3 with  respect to t"
    let front := "derivative of t^3 ".toList
    (CalculusTask.ofText text = .derivative ∧ lowerChars text.toList = front ++ (clause.chars ++ []) ∧
      ∀ f r, f ++ r = front ++ (clause.chars ++ []) → ClauseAt f r → f = front) ∧
      formula text = "t**3" ∧
      (calculus text {}).map (fun found => (found.answer, found.certificate)) =
        .ok (.value (.const 0), some (.derivative (.pow (.var "t") (.const 3)) "x")) := by
  intro clause text front
  have asked : CalculusTask.ofText text = .derivative := by decide +kernel
  have formula : formula text = "t**3" := by decide +kernel
  have unnamed : respectClause? (lowerChars text.toList) = none := by decide +kernel
  refine ⟨⟨asked, by decide +kernel, fun f r => eq_of_append (by decide +kernel)⟩, formula, ?_⟩
  rw [calculus, asked]
  simp only [derivative, unnamed, formula, read_cube]
  decide +kernel

end Tutor.Solve
