import Tutor.Calculus.Derivative
import Tutor.Proofs.Expr.RoundTrip
import Tutor.Proofs.Simplify.Hereditary
import Tutor.Proofs.Simplify.Pass

/-!
Results as they are displayed. Simplification and differentiation bring no variable into an expression, so
whatever they make of an expression that was read is written in a form that is read again.
-/

set_option autoImplicit false
set_option relaxedAutoImplicit false

namespace Tutor.Expr

variable {e a b da db : Expr} {v : String}

/-! ### Single letters stay -/

private theorem hereditary_letterVariables : Simplify.Hereditary LetterVariables fun _ => True where
  const _ := trivial
  add_iff := Iff.rfl
  sub_iff := Iff.rfl
  mul_iff := Iff.rfl
  div_iff := Iff.rfl
  neg_iff := Iff.rfl
  pow_iff := Iff.rfl
  exponent_one := trivial
  exponent_add _ _ := trivial
  exponent_mul _ _ := trivial
  exponent_num _ := trivial

private theorem letterVariables_node (he : e.LetterVariables) : (Simplify.node e).LetterVariables := by
  have closed := hereditary_letterVariables
  cases e with
  | var name => exact he
  | const q => trivial
  | add a b => exact closed.add he.1 he.2
  | sub a b => exact closed.sub he.1 he.2
  | mul a b => exact closed.mul he.1 he.2
  | div a b => exact closed.div he.1 he.2
  | pow a b =>
    cases b with
    | const q => exact closed.raise he.1 trivial
    | _ => exact he
  | neg a => exact closed.neg he
  | sin a | tan a =>
    simp only [Simplify.node]
    split_ifs
    · trivial
    · split
      · exact closed.neg he
      · exact he
  | cos a | exp a | log a =>
    simp only [Simplify.node]
    split_ifs
    · trivial
    · split <;> exact he

private theorem letterVariables_simplify (he : e.LetterVariables) : e.simplify.LetterVariables := by
  induction e with
  | var name => exact he
  | const q => trivial
  | add a b iha ihb | sub a b iha ihb | mul a b iha ihb | div a b iha ihb | pow a b iha ihb =>
    exact letterVariables_node ⟨iha he.1, ihb he.2⟩
  | neg a ih | sin a ih | cos a ih | tan a ih | exp a ih | log a ih => exact letterVariables_node (ih he)

private theorem letterVariables_simplifyWithLimit (he : e.LetterVariables) (limit : Nat) :
    (e.simplifyWithLimit limit).LetterVariables :=
  simplifyWithLimit_keeps (P := LetterVariables) (fun _ => letterVariables_simplify) he limit

private theorem derivative_zero_or {P : Expr → Prop} (zero : P .zero)
    (rule : ¬e.mentions v = false → P (derivative v e)) : P (derivative v e) := by
  by_cases free : e.mentions v = false
  · rw [derivative.eq_def, if_pos free]
    exact zero
  · exact rule free

private theorem letterVariables_derivative (he : e.LetterVariables) : (derivative v e).LetterVariables := by
  have closed := hereditary_letterVariables
  induction e with
  | var name =>
    refine derivative_zero_or trivial fun hv => ?_
    rw [derivative, if_neg hv]
    trivial
  | const q => exact derivative_zero_or trivial fun hv => absurd rfl hv
  | add a b iha ihb =>
    refine derivative_zero_or trivial fun hv => ?_
    rw [derivative, if_neg hv]
    exact closed.add (iha he.1) (ihb he.2)
  | sub a b iha ihb =>
    refine derivative_zero_or trivial fun hv => ?_
    rw [derivative, if_neg hv]
    exact closed.sub (iha he.1) (ihb he.2)
  | mul a b iha ihb =>
    refine derivative_zero_or trivial fun hv => ?_
    rw [derivative, if_neg hv]
    exact letterVariables_simplify ⟨⟨iha he.1, he.2⟩, he.1, ihb he.2⟩
  | div a b iha ihb =>
    refine derivative_zero_or trivial fun hv => ?_
    rw [derivative, if_neg hv, quotientRule]
    split_ifs
    · exact letterVariables_simplify ⟨⟨⟨iha he.1, he.2⟩, he.1, ihb he.2⟩, he.2, trivial⟩
    · exact letterVariables_simplify ⟨iha he.1, he.2⟩
  | pow a b iha ihb =>
    refine derivative_zero_or trivial fun hv => ?_
    rw [derivative, if_neg hv, powerRule]
    split_ifs
    · exact letterVariables_simplify ⟨he, ⟨ihb he.2, he.1⟩, ⟨he.2, iha he.1⟩, he.1⟩
    · have lowered : (Expr.sub b .one).simplify.LetterVariables :=
        letterVariables_simplify ⟨he.2, trivial⟩
      exact letterVariables_simplify ⟨⟨he.2, he.1, lowered⟩, iha he.1⟩
  | neg a ih =>
    refine derivative_zero_or trivial fun hv => ?_
    rw [derivative, if_neg hv]
    exact letterVariables_simplify (ih he)
  | sin a ih =>
    refine derivative_zero_or trivial fun hv => ?_
    rw [derivative, if_neg hv]
    exact letterVariables_simplify ⟨ih he, he⟩
  | cos a ih =>
    refine derivative_zero_or trivial fun hv => ?_
    rw [derivative, if_neg hv]
    have rule : (chainRule (derivative v a) (.sin a)).LetterVariables :=
      letterVariables_simplify ⟨ih he, he⟩
    exact letterVariables_simplify (closed.neg_iff.mpr rule)
  | tan a ih =>
    refine derivative_zero_or trivial fun hv => ?_
    rw [derivative, if_neg hv]
    exact letterVariables_simplify ⟨ih he, trivial, he, trivial⟩
  | exp a ih =>
    refine derivative_zero_or trivial fun hv => ?_
    rw [derivative, if_neg hv]
    exact letterVariables_simplify ⟨ih he, he⟩
  | log a ih =>
    refine derivative_zero_or trivial fun hv => ?_
    rw [derivative, if_neg hv]
    exact letterVariables_simplify ⟨ih he, he⟩

/-! ### What is displayed -/

/-- What is displayed can be read back. The written form of every result of simplification or
differentiation is an expression again, which denotes the result with the sign of each negative integer
base read as that of its power; so it denotes the same as the result, defined under the same assignments
and with the same values there, if no power has such a base. -/
theorem exists_parse_displayed {s : String} {r : Expr} (h : parse s = .ok e)
    (computed : r = e.simplify ∨ r = e.simplifyFully ∨ r = derivative v e) :
    ∃ r', parse r.text = .ok r' ∧ Equivalent r' r.asRead ∧
      (r.NoMisreadBase → ∀ ρ, (r'.DefinedAt ρ ↔ r.DefinedAt ρ) ∧
        (r.DefinedAt ρ → r'.evalAt ρ = r.evalAt ρ)) := by
  have read := letterVariables_of_parse h
  have letters : r.LetterVariables := by
    rcases computed with rfl | rfl | rfl
    · exact letterVariables_simplify read
    · exact letterVariables_simplifyWithLimit read fullPasses
    · exact letterVariables_derivative read
  obtain ⟨r', back, same⟩ := exists_parse_text_asRead letters
  refine ⟨r', back, same, fun kept ρ => ?_⟩
  rw [asRead_eq_self_iff.mpr kept] at same
  exact ⟨same.definedAt_iff ρ, same.evalAt_eq⟩

/-- The derivative of `1 / x`, a quotient behind a sign. -/
theorem exists_parse_displayed_reciprocal :
    let r := derivative "x" (.div (.const 1) (.var "x"))
    parse "1/x" = .ok (.div (.const 1) (.var "x")) ∧ r.text = "-(1/x^2)" ∧ r.NoMisreadBase ∧
      ∃ r', parse "-(1/x^2)" = .ok r' ∧
        ∀ ρ, (r'.DefinedAt ρ ↔ r.DefinedAt ρ) ∧ (r.DefinedAt ρ → r'.evalAt ρ = r.evalAt ρ) := by
  intro r
  have text : r.text = "-(1/x^2)" := by decide +kernel
  have one : Written .primary ['1'] (.const (Number.decimalValue ['1'] [])) :=
    .number (by simp) (List.forall_mem_singleton.mpr rfl)
  have value : Number.decimalValue ['1'] [] = 1 := by decide +kernel
  have letter : Written .primary ['x'] (.var (String.singleton 'x')) := .letter (by decide)
  have quotient := one.outer.outer.outer.divided letter.outer.outer
  rw [value] at quotient
  have read : parse "1/x" = .ok (.div (.const 1) (.var "x")) := parse_of_written quotient.outer
  have kept : r.NoMisreadBase := by
    have whole : r = .neg (.div (.const 1) (.pow (.var "x") (.const 2))) := by decide +kernel
    rw [whole]
    exact ⟨trivial, trivial, trivial, by decide +kernel⟩
  obtain ⟨r', back, -, same⟩ := exists_parse_displayed (v := "x") (r := r) read (.inr (.inr rfl))
  exact ⟨read, text, kept, r', text ▸ back, same kept⟩

/-- A power of a negative integer that simplification makes of a power with a sign in its base: the result
is 4 at 2, and what is displayed is read as an expression that is -4 there. -/
theorem displayed_negative_base_misread :
    let e : Expr := .pow (.neg (.const 2)) (.var "x")
    let r' : Expr := .neg (.pow (.const 2) (.var "x"))
    parse "(-2)^x" = .ok e ∧ e.simplify.text = "-2^x" ∧ parse "-2^x" = .ok r' ∧
      Denotes (fun _ => 2) e.simplify 4 ∧ Denotes (fun _ => 2) r' (-4) := by
  intro e r'
  have two : Written .primary ['2'] (.const (Number.decimalValue ['2'] [])) :=
    .number (by simp) (List.forall_mem_singleton.mpr rfl)
  have value : Number.decimalValue ['2'] [] = 2 := by decide +kernel
  rw [value] at two
  have letter : Written .primary ['x'] (.var (String.singleton 'x')) := .letter (by decide)
  have power := two.outer.outer.negated.outer.outer.bracketed.raised letter.outer.outer
  have misread := (two.raised letter.outer.outer).outer.negated
  have square (c : Rat) (hc : c ≠ 0) :
      Denotes (fun _ => 2) (.pow (.const c) (.var "x")) ((c : ℝ) ^ (2 : ℝ)) := by
    have power : PowerDefined (c : ℝ) 2 := by
      simpa using PowerDefined.int_of_ne_zero (Rat.cast_ne_zero.mpr hc) 2
    exact denotes_pow.mpr ⟨c, 2, denotes_const c, ⟨trivial, rfl⟩, power, rfl⟩
  have simplified : e.simplify = .pow (.const (-2)) (.var "x") := by decide +kernel
  refine ⟨parse_of_written power.outer.outer.outer, by decide +kernel,
    parse_of_written misread.outer.outer, ?_, ?_⟩
  · have value := square (-2) (by decide)
    rw [simplified]
    norm_num at value ⊢
    exact value
  · have value := square 2 (by decide)
    norm_num at value
    exact denotes_neg.mpr ⟨4, value, rfl⟩

end Tutor.Expr
