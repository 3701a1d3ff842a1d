import Tutor.Proofs.Expr.Reading

/-!
What the readers take for a variable is a single letter, so every variable of an expression that was read
is one: no rule by which the parts of an expression are put together adds a variable.
-/

set_option autoImplicit false
set_option relaxedAutoImplicit false

namespace Tutor.Expr

open Reader

def LetterVariables : Expr → Prop
  | .var name => ∃ c : Char, c.isAlpha = true ∧ name = String.singleton c
  | .const _ => True
  | .add a b | .sub a b | .mul a b | .div a b | .pow a b => a.LetterVariables ∧ b.LetterVariables
  | .neg a | .sin a | .cos a | .tan a | .exp a | .log a => a.LetterVariables

namespace Reader

variable {cs rest : List Char} {e : Expr}

/-- A node that keeps single letters: the expression it builds has them if its parts do. -/
def KeepsLetters (node : Expr → Expr → Expr) : Prop :=
  ∀ ⦃a b⦄, a.LetterVariables → b.LetterVariables → (node a b).LetterVariables

private theorem keepsLetters_of_sumOperator? {node : Expr → Expr → Expr}
    (h : result sumOperator? cs = some (node, rest)) : KeepsLetters node := by
  obtain ⟨c, behind, ⟨-, rfl⟩ | ⟨-, rfl⟩, -⟩ := result_sumOperator?_eq_some_iff.mp h <;>
    exact fun _ _ ha hb => ⟨ha, hb⟩

private theorem keepsLetters_of_productOperator? {node : Expr → Expr → Expr}
    (h : result productOperator? cs = some (node, rest)) : KeepsLetters node := by
  obtain rfl | rfl := node_of_productOperator? h <;>
    exact fun _ _ ha hb => ⟨ha, hb⟩

private theorem letterVariables_of_function? {node : Expr → Expr} (h : result function? cs = some (node, rest))
    (he : e.LetterVariables) : (node e).LetterVariables := by
  obtain ⟨behind, bare, -⟩ := result_spaced?_eq_some_iff.mp h
  obtain ⟨name, mem, -⟩ := exists_of_functionOf? bare
  simp only [functions, List.mem_cons, Prod.mk.injEq, List.not_mem_nil, or_false] at mem
  rcases mem with ⟨-, rfl⟩ | ⟨-, rfl⟩ | ⟨-, rfl⟩ | ⟨-, rfl⟩ | ⟨-, rfl⟩ | ⟨-, rfl⟩ | ⟨-, rfl⟩
  · exact ⟨he, trivial⟩
  all_goals exact he

private theorem letterVariables_of_number? (h : result number? cs = some (e, rest)) : e.LetterVariables := by
  obtain ⟨value, behind, rfl, -⟩ := exists_of_number? h
  trivial

private theorem letterVariables_of_letter? (h : result letter? cs = some (e, rest)) : e.LetterVariables := by
  obtain ⟨c, behind, -, letter, rfl, -⟩ := exists_of_letter? h
  exact ⟨c, letter, rfl⟩

theorem Parsed.letterVariables {p : Phrase} (h : Parsed p cs e rest) : e.LetterVariables := by
  induction h with
  | bracketed _ _ _ _ ih => exact ih
  | applied name _ ih => exact letterVariables_of_function? name ih
  | number h => exact letterVariables_of_number? h
  | letter _ h => exact letterVariables_of_letter? h
  | raised _ _ _ base exponent => exact ⟨base, exponent⟩
  | negated _ _ ih | plus _ _ ih => exact ih
  | factor _ sign _ first second => exact keepsLetters_of_productOperator? sign first second
  | beside _ _ first second => exact ⟨first, second⟩
  | term _ sign _ first second => exact keepsLetters_of_sumOperator? sign first second
  | outer _ ih => exact ih

end Reader

theorem letterVariables_of_parse {s : String} {e : Expr} (h : parse s = .ok e) : e.LetterVariables := by
  obtain ⟨rest, read, -⟩ := exists_of_parse h
  exact ((readsParsed _).sum read).letterVariables

end Tutor.Expr
